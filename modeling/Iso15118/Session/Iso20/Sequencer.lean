import Iso15118.Session.Basic
import Iso15118.Lib.Run

/-!
# The ISO 15118-20 sequencer

`session/iso20.rs`: the second generation's graph. Authorization comes first, service selection
after it, and schedule exchange is a phase of its own; the selected service decides whether the
DC safety phases run. `Sequencer.nextPhase` is the whole table, `Sequencer.acceptProcessing`
consults it and records the facts later rows branch on — and unwinds them when a *service*
renegotiation takes the session back to just after authorization.

The layout follows `Iso2/Sequencer`: **`Sequencer.Arrow`** is the table as a relation, with
**`arrow_of_nextPhase`**; **`Call`**, **`Sequencer.call`** and **`Sequencer.accepted`** are a
session as its caller drives it, `resume` included.
-/

namespace Iso15118.Session.Iso20

open Iso15118.Lib

/-! ## The data the graph branches on

A request is reduced to its kind and to the few fields the table looks at. -/

inductive ChargeProgress where
  | start
  | stop
  | standby
  | scheduleRenegotiation
  deriving DecidableEq, Repr

inductive ChargingSession where
  | pause
  | terminate
  | serviceRenegotiation
  deriving DecidableEq, Repr

/-- The energy transfer service a session selected. -/
inductive Service where
  | ac
  | dc
  | wpt
  | acdp
  | acDerIec
  | acDerSae
  | mcs
  deriving DecidableEq, Repr

/-- The services that need an isolation check and a pre-charge before power flows, and a weld
check afterwards. -/
def Service.isDc : Service → Bool
  | .dc | .mcs | .acdp => true
  | _ => false

/-- The energy transfer a session selected: which flow, and which way power may move. -/
structure EnergyTransfer where
  service : Service
  bidirectional : Bool
  deriving DecidableEq, Repr

/-- `ResponseCode::FAILEDSequenceError as u8`. -/
def failedSequenceError : UInt8 := 34

/-- A request, reduced to what sequencing depends on. -/
inductive Request where
  | sessionSetup
  | authorizationSetup
  | authorization
  | serviceDiscovery
  | serviceDetail
  | serviceSelection (transfer : EnergyTransfer)
  | certificateInstallation
  | chargeParameterDiscovery
  | scheduleExchange
  | cableCheck
  | preCharge
  | powerDelivery (progress : ChargeProgress)
  | chargeLoop
  | meteringConfirmation
  | weldingDetection
  | sessionStop (session : ChargingSession)
  | vehicleCheckIn
  | vehicleCheckOut
  | acdpControl
  | wptPositioning
  deriving DecidableEq, Repr

/-- The element name, for logs and errors. -/
def Request.name : Request → String
  | .sessionSetup => "SessionSetupReq"
  | .authorizationSetup => "AuthorizationSetupReq"
  | .authorization => "AuthorizationReq"
  | .serviceDiscovery => "ServiceDiscoveryReq"
  | .serviceDetail => "ServiceDetailReq"
  | .serviceSelection _ => "ServiceSelectionReq"
  | .certificateInstallation => "CertificateInstallationReq"
  | .chargeParameterDiscovery => "ChargeParameterDiscoveryReq"
  | .scheduleExchange => "ScheduleExchangeReq"
  | .cableCheck => "DC_CableCheckReq"
  | .preCharge => "DC_PreChargeReq"
  | .powerDelivery _ => "PowerDeliveryReq"
  | .chargeLoop => "ChargeLoopReq"
  | .meteringConfirmation => "MeteringConfirmationReq"
  | .weldingDetection => "DC_WeldingDetectionReq"
  | .sessionStop _ => "SessionStopReq"
  | .vehicleCheckIn => "VehicleCheckInReq"
  | .vehicleCheckOut => "VehicleCheckOutReq"
  | .acdpControl => "ACDP control message"
  | .wptPositioning => "WPT positioning message"

/-- Where a session has got to. -/
inductive Phase where
  | start
  | sessionSetup
  | authorizationSetup
  | authorized
  | serviceDiscovery
  | serviceSelected
  | chargeParameters
  | scheduleExchanged
  | cableCheck
  | preCharge
  | charging
  | standby
  | powerStopped
  | weldingDetection
  | paused
  | stopped
  deriving DecidableEq, Repr

def Phase.name : Phase → String
  | .start => "Start"
  | .sessionSetup => "SessionSetup"
  | .authorizationSetup => "AuthorizationSetup"
  | .authorized => "Authorized"
  | .serviceDiscovery => "ServiceDiscovery"
  | .serviceSelected => "ServiceSelected"
  | .chargeParameters => "ChargeParameters"
  | .scheduleExchanged => "ScheduleExchanged"
  | .cableCheck => "CableCheck"
  | .preCharge => "PreCharge"
  | .charging => "Charging"
  | .standby => "Standby"
  | .powerStopped => "PowerStopped"
  | .weldingDetection => "WeldingDetection"
  | .paused => "Paused"
  | .stopped => "Stopped"

/-! ## The sequencer

The state, the table and what a caller does: offer a request, report a failure, and resume a
paused session. -/

structure Sequencer where
  phase : Phase
  energyTransfer : Option EnergyTransfer
  renegotiated : Bool
  failed : Bool
  starting : Bool
  deriving DecidableEq, Repr

namespace Sequencer

/-- `Sequencer::new`. -/
def new : Sequencer where
  phase := .start
  energyTransfer := none
  renegotiated := false
  failed := false
  starting := false

/-- The selected flow, once `ServiceSelection` has said. -/
def service (s : Sequencer) : Option Service := s.energyTransfer.map (·.service)

/-- Whether the selected service runs the DC safety phases. -/
def dc (s : Sequencer) : Bool := s.service.any Service.isDc

/-- What is left after a `FAILED_*` response: the peer may stop the session and nothing else.
Renegotiating a service it was just refused is not stopping it. -/
def stopOnly (phase : Phase) (request : Request) : Option Phase :=
  match phase, request with
  | .start, _ | .stopped, _ | .paused, _ => none
  | _, .sessionStop .terminate => some .stopped
  | .cableCheck, .sessionStop .pause
  | .preCharge, .sessionStop .pause
  | .charging, .sessionStop .pause => none
  | _, .sessionStop .pause => some .paused
  | _, _ => none

/-- The flow of a session that has not failed, from `phase` on. -/
def flow (s : Sequencer) (phase : Phase) (request : Request) : Option Phase :=
  let acdp := s.service = some .acdp
  let wpt := s.service = some .wpt
  match phase, request with
  | .start, .sessionSetup => some .sessionSetup
  | .sessionSetup, .authorizationSetup => some .authorizationSetup
  | .authorizationSetup, .certificateInstallation => some .authorizationSetup
  | .authorizationSetup, .authorization => some .authorized
  | .authorized, .authorization => some .authorized
  | .authorized, .serviceDiscovery => some .serviceDiscovery
  | .serviceDiscovery, .serviceDetail => some .serviceDiscovery
  | .serviceDiscovery, .serviceSelection _ => some .serviceSelected
  -- The pantograph parks itself and the wireless coupler aligns itself first.
  | .serviceSelected, .vehicleCheckIn
  | .serviceSelected, .acdpControl => if acdp then some .serviceSelected else none
  | .serviceSelected, .wptPositioning => if wpt then some .serviceSelected else none
  | .serviceSelected, .chargeParameterDiscovery => some .chargeParameters
  | .chargeParameters, .chargeParameterDiscovery => some .chargeParameters
  | .chargeParameters, .scheduleExchange => some .scheduleExchanged
  | .scheduleExchanged, .scheduleExchange => some .scheduleExchanged
  | .scheduleExchanged, .cableCheck => if s.dc then some .cableCheck else none
  -- As in -2: DC runs the isolation test and the pre-charge once, on the way up.
  | .scheduleExchanged, .powerDelivery .start =>
      if ¬ s.dc ∨ s.renegotiated then some .charging else none
  | .cableCheck, .cableCheck => some .cableCheck
  | .cableCheck, .preCharge => some .preCharge
  | .preCharge, .preCharge => some .preCharge
  | .preCharge, .powerDelivery .start => some .charging
  -- A vehicle still starting repeats its `Start`.
  | .charging, .powerDelivery .start => if s.starting then some .charging else none
  | .charging, .chargeLoop => some .charging
  | .charging, .meteringConfirmation => some .charging
  | .charging, .powerDelivery .scheduleRenegotiation => some .chargeParameters
  | .charging, .powerDelivery .standby => some .standby
  | .standby, .powerDelivery .start => some .charging
  | .standby, .powerDelivery .stop => some .powerStopped
  | .charging, .powerDelivery .stop => some .powerStopped
  | .powerStopped, .weldingDetection => if s.dc then some .weldingDetection else none
  | .weldingDetection, .weldingDetection => some .weldingDetection
  | .powerStopped, .vehicleCheckOut
  | .powerStopped, .acdpControl => if acdp then some .powerStopped else none
  | .weldingDetection, .vehicleCheckOut
  | .weldingDetection, .acdpControl => if acdp then some .weldingDetection else none
  -- Stopping is legal from any established phase, pausing not while the cable is live, and a
  -- service renegotiation needs a service to renegotiate.
  | .start, .sessionStop _ | .stopped, .sessionStop _ | .paused, .sessionStop _ => none
  | _, .sessionStop .terminate => some .stopped
  | .cableCheck, .sessionStop .pause
  | .preCharge, .sessionStop .pause
  | .charging, .sessionStop .pause => none
  | _, .sessionStop .pause => some .paused
  | .serviceSelected, .sessionStop .serviceRenegotiation
  | .chargeParameters, .sessionStop .serviceRenegotiation
  | .scheduleExchanged, .sessionStop .serviceRenegotiation
  | .cableCheck, .sessionStop .serviceRenegotiation
  | .preCharge, .sessionStop .serviceRenegotiation
  | .charging, .sessionStop .serviceRenegotiation
  | .standby, .sessionStop .serviceRenegotiation
  | .powerStopped, .sessionStop .serviceRenegotiation
  | .weldingDetection, .sessionStop .serviceRenegotiation => some .authorized
  | _, _ => none

/-- The phase `request` would move the session to, or `none` if it is out of sequence.
The whole of the ISO 15118-20 flow. -/
def nextPhase (s : Sequencer) (request : Request) : Option Phase :=
  if s.failed then stopOnly s.phase request else s.flow s.phase request

/-- The refusal `request` would earn right now. -/
def refusal (s : Sequencer) (request : Request) : SequenceError where
  got := request.name
  phase := s.phase.name
  responseCode := failedSequenceError

/-- True when `request` would be accepted right now. -/
def permits (s : Sequencer) (request : Request) : Bool :=
  (s.nextPhase request).isSome

/-- The state after an accepted request that leads to `next`. A service renegotiation unwinds
the two facts the DC branch depends on; `renegotiated` is set on the way back to parameter
discovery from a charge that had started. -/
def advance (s : Sequencer) (request : Request) (evProcessingOngoing : Bool) (next : Phase) :
    Sequencer :=
  let renegotiated := s.renegotiated || decide (next = .chargeParameters
    ∧ (s.phase = .charging ∨ s.phase = .standby ∨ s.phase = .powerStopped))
  { s with
    phase := next
    energyTransfer :=
      match request with
      | .serviceSelection transfer => some transfer
      | .sessionStop .serviceRenegotiation => none
      | _ => s.energyTransfer
    renegotiated :=
      match request with
      | .sessionStop .serviceRenegotiation => false
      | _ => renegotiated
    starting := evProcessingOngoing && decide (request = .powerDelivery .start) }

@[simp] theorem advance_phase (s : Sequencer) (r : Request) (o : Bool) (p : Phase) :
    (s.advance r o p).phase = p := rfl

/-- `Sequencer::accept_processing`: the answer, and the sequencer afterwards — the same one
when the request is refused. -/
def acceptProcessing (s : Sequencer) (request : Request) (evProcessingOngoing : Bool) :
    Except SequenceError Phase × Sequencer :=
  match s.nextPhase request with
  | none => (.error (s.refusal request), s)
  | some next => (.ok next, s.advance request evProcessingOngoing next)

/-- `Sequencer::failed`. -/
def recordFailure (s : Sequencer) : Sequencer := { s with failed := true }

/-- `Sequencer::resume`: picks up a paused session, from just after service selection. -/
def resume (s : Sequencer) (transfer : EnergyTransfer) : Sequencer :=
  { s with
    energyTransfer := some transfer
    phase := .serviceSelected
    renegotiated := false
    starting := false }

end Sequencer

/-! ## The table as a relation

`Forward` has a constructor for each rule of the table, with the rule's guard, and `Arrow` adds
the ways to stop. Proofs about accepted requests go by cases on these instead of unfolding the
table. -/

/-- The phases no request leaves: nothing has been set up yet, or the session is over. -/
def Phase.Closed (p : Phase) : Prop := p = .start ∨ p = .stopped ∨ p = .paused

/-- The phases in which the code takes the cable to be live, and refuses a pause. -/
def Phase.Live (p : Phase) : Prop := p = .cableCheck ∨ p = .preCharge ∨ p = .charging

/-- The phases in which a service is selected, and can be renegotiated. -/
def Phase.Serving (p : Phase) : Prop :=
  p = .serviceSelected ∨ p = .chargeParameters ∨ p = .scheduleExchanged ∨ p = .cableCheck
    ∨ p = .preCharge ∨ p = .charging ∨ p = .standby ∨ p = .powerStopped ∨ p = .weldingDetection

namespace Sequencer

/-- The ordering rules that lead on through a session, each with its guard. -/
inductive Forward (s : Sequencer) : Request → Phase → Prop where
  | sessionSetup (hp : s.phase = .start) : Forward s .sessionSetup .sessionSetup
  | authorizationSetup (hp : s.phase = .sessionSetup) :
      Forward s .authorizationSetup .authorizationSetup
  | installCertificate (hp : s.phase = .authorizationSetup) :
      Forward s .certificateInstallation .authorizationSetup
  | authorize (hp : s.phase = .authorizationSetup ∨ s.phase = .authorized) :
      Forward s .authorization .authorized
  | serviceDiscovery (hp : s.phase = .authorized) : Forward s .serviceDiscovery .serviceDiscovery
  | serviceDetail (hp : s.phase = .serviceDiscovery) : Forward s .serviceDetail .serviceDiscovery
  | selectService (transfer : EnergyTransfer) (hp : s.phase = .serviceDiscovery) :
      Forward s (.serviceSelection transfer) .serviceSelected
  | checkIn (hp : s.phase = .serviceSelected) (hs : s.service = some .acdp) :
      Forward s .vehicleCheckIn .serviceSelected
  | controlBefore (hp : s.phase = .serviceSelected) (hs : s.service = some .acdp) :
      Forward s .acdpControl .serviceSelected
  | position (hp : s.phase = .serviceSelected) (hs : s.service = some .wpt) :
      Forward s .wptPositioning .serviceSelected
  | discoverParameters (hp : s.phase = .serviceSelected ∨ s.phase = .chargeParameters) :
      Forward s .chargeParameterDiscovery .chargeParameters
  | exchangeSchedule (hp : s.phase = .chargeParameters ∨ s.phase = .scheduleExchanged) :
      Forward s .scheduleExchange .scheduleExchanged
  | beginCableCheck (hp : s.phase = .scheduleExchanged) (hdc : s.dc = true) :
      Forward s .cableCheck .cableCheck
  | startDirectly (hp : s.phase = .scheduleExchanged)
      (hdc : ¬ s.dc = true ∨ s.renegotiated = true) :
      Forward s (.powerDelivery .start) .charging
  | repeatCableCheck (hp : s.phase = .cableCheck) : Forward s .cableCheck .cableCheck
  | preCharge (hp : s.phase = .cableCheck ∨ s.phase = .preCharge) : Forward s .preCharge .preCharge
  | startAfterPreCharge (hp : s.phase = .preCharge) : Forward s (.powerDelivery .start) .charging
  | repeatStart (hp : s.phase = .charging) (hs : s.starting = true) :
      Forward s (.powerDelivery .start) .charging
  | chargeLoop (hp : s.phase = .charging) : Forward s .chargeLoop .charging
  | confirmMetering (hp : s.phase = .charging) : Forward s .meteringConfirmation .charging
  | renegotiateSchedule (hp : s.phase = .charging) :
      Forward s (.powerDelivery .scheduleRenegotiation) .chargeParameters
  | standBy (hp : s.phase = .charging) : Forward s (.powerDelivery .standby) .standby
  | startAfterStandby (hp : s.phase = .standby) : Forward s (.powerDelivery .start) .charging
  | stopPower (hp : s.phase = .standby ∨ s.phase = .charging) :
      Forward s (.powerDelivery .stop) .powerStopped
  | weldingDetection (hp : s.phase = .powerStopped) (hdc : s.dc = true) :
      Forward s .weldingDetection .weldingDetection
  | repeatWeldingDetection (hp : s.phase = .weldingDetection) :
      Forward s .weldingDetection .weldingDetection
  | checkOut (hp : s.phase = .powerStopped) (hs : s.service = some .acdp) :
      Forward s .vehicleCheckOut .powerStopped
  | controlAfter (hp : s.phase = .powerStopped) (hs : s.service = some .acdp) :
      Forward s .acdpControl .powerStopped
  | checkOutWelding (hp : s.phase = .weldingDetection) (hs : s.service = some .acdp) :
      Forward s .vehicleCheckOut .weldingDetection
  | controlWelding (hp : s.phase = .weldingDetection) (hs : s.service = some .acdp) :
      Forward s .acdpControl .weldingDetection

/-- Every way a request can be accepted. -/
inductive Arrow (s : Sequencer) : Request → Phase → Prop where
  | forward {r : Request} {p : Phase} (hf : s.failed = false) (h : Forward s r p) : Arrow s r p
  | renegotiateService (hf : s.failed = false) (hp : Phase.Serving s.phase) :
      Arrow s (.sessionStop .serviceRenegotiation) .authorized
  | terminate (hp : ¬ Phase.Closed s.phase) : Arrow s (.sessionStop .terminate) .stopped
  | pause (hp : ¬ Phase.Closed s.phase) (hl : ¬ Phase.Live s.phase) :
      Arrow s (.sessionStop .pause) .paused

theorem arrow_of_stopOnly {s : Sequencer} {r : Request} {p : Phase}
    (h : stopOnly s.phase r = some p) : s.Arrow r p := by
  unfold stopOnly at h
  split at h
  case h_4 hstart hstopped hpaused =>
    cases h
    exact .terminate (by rintro (h | h | h) <;> simp_all)
  case h_8 hstart hstopped hpaused hcable hpre hcharging =>
    cases h
    exact .pause (by rintro (h | h | h) <;> simp_all) (by rintro (h | h | h) <;> simp_all)
  -- every other arm refuses
  all_goals cases h

/-- What the table of `Sequencer::flow` lets through is an arrow of the diagram: the arms in the
order of the table, one after another. -/
theorem arrow_of_flow {s : Sequencer} {r : Request} {p : Phase} (hf : s.failed = false)
    (h : s.flow s.phase r = some p) : s.Arrow r p := by
  unfold flow at h
  split at h
  -- the refusing arms go; a guarded arm leaves its guard, in the order of the table
  all_goals simp only [Option.ite_none_right_eq_some, Option.some.injEq, reduceCtorEq] at h
  -- up to the service: set-up, authorization, and the choice of a service
  · next hp =>
    subst h
    exact .forward hf (.sessionSetup hp)
  · next hp =>
    subst h
    exact .forward hf (.authorizationSetup hp)
  · next hp =>
    subst h
    exact .forward hf (.installCertificate hp)
  · next hp =>
    subst h
    exact .forward hf (.authorize (.inl hp))
  · next hp =>
    subst h
    exact .forward hf (.authorize (.inr hp))
  · next hp =>
    subst h
    exact .forward hf (.serviceDiscovery hp)
  · next hp =>
    subst h
    exact .forward hf (.serviceDetail hp)
  · next hp =>
    subst h
    exact .forward hf (.selectService _ hp)
  -- pairing and positioning are for the services that need them
  · next hp =>
    obtain ⟨hs, rfl⟩ := h
    exact .forward hf (.checkIn hp hs)
  · next hp =>
    obtain ⟨hs, rfl⟩ := h
    exact .forward hf (.controlBefore hp hs)
  · next hp =>
    obtain ⟨hs, rfl⟩ := h
    exact .forward hf (.position hp hs)
  -- parameters and schedules, then the way to power, which direct current takes through a cable
  -- check
  · next hp =>
    subst h
    exact .forward hf (.discoverParameters (.inl hp))
  · next hp =>
    subst h
    exact .forward hf (.discoverParameters (.inr hp))
  · next hp =>
    subst h
    exact .forward hf (.exchangeSchedule (.inl hp))
  · next hp =>
    subst h
    exact .forward hf (.exchangeSchedule (.inr hp))
  · next hp =>
    obtain ⟨hdc, rfl⟩ := h
    exact .forward hf (.beginCableCheck hp hdc)
  · next hp =>
    obtain ⟨hdc, rfl⟩ := h
    exact .forward hf (.startDirectly hp hdc)
  · next hp =>
    subst h
    exact .forward hf (.repeatCableCheck hp)
  · next hp =>
    subst h
    exact .forward hf (.preCharge (.inl hp))
  · next hp =>
    subst h
    exact .forward hf (.preCharge (.inr hp))
  · next hp =>
    subst h
    exact .forward hf (.startAfterPreCharge hp)
  -- the loop, and what may interrupt it
  · next hp =>
    obtain ⟨hs, rfl⟩ := h
    exact .forward hf (.repeatStart hp hs)
  · next hp =>
    subst h
    exact .forward hf (.chargeLoop hp)
  · next hp =>
    subst h
    exact .forward hf (.confirmMetering hp)
  · next hp =>
    subst h
    exact .forward hf (.renegotiateSchedule hp)
  · next hp =>
    subst h
    exact .forward hf (.standBy hp)
  · next hp =>
    subst h
    exact .forward hf (.startAfterStandby hp)
  -- the way out, which welding detection is a part of for direct current
  · next hp =>
    subst h
    exact .forward hf (.stopPower (.inl hp))
  · next hp =>
    subst h
    exact .forward hf (.stopPower (.inr hp))
  · next hp =>
    obtain ⟨hdc, rfl⟩ := h
    exact .forward hf (.weldingDetection hp hdc)
  · next hp =>
    subst h
    exact .forward hf (.repeatWeldingDetection hp)
  · next hp =>
    obtain ⟨hs, rfl⟩ := h
    exact .forward hf (.checkOut hp hs)
  · next hp =>
    obtain ⟨hs, rfl⟩ := h
    exact .forward hf (.controlAfter hp hs)
  · next hp =>
    obtain ⟨hs, rfl⟩ := h
    exact .forward hf (.checkOutWelding hp hs)
  · next hp =>
    obtain ⟨hs, rfl⟩ := h
    exact .forward hf (.controlWelding hp hs)
  -- ending and pausing are not tied to a phase, and name those they are refused in
  · next hstart hstopped hpaused =>
    subst h
    exact .terminate (by rintro (h | h | h) <;> simp_all)
  · next hstart hstopped hpaused hcable hpre hcharging =>
    subst h
    exact .pause (by rintro (h | h | h) <;> simp_all) (by rintro (h | h | h) <;> simp_all)
  -- what is left renegotiates the service
  all_goals
    next hp =>
    subst h
    exact .renegotiateService hf (by simp [Phase.Serving, hp])

/-- Every accepted request takes one of the arrows. -/
theorem arrow_of_nextPhase {s : Sequencer} {r : Request} {p : Phase}
    (h : s.nextPhase r = some p) : s.Arrow r p := by
  unfold nextPhase at h
  split at h
  · exact arrow_of_stopOnly h
  · next hf => exact arrow_of_flow (by simpa using hf) h

/-- Nothing is accepted once the session is over. -/
theorem Arrow.not_over {s : Sequencer} {r : Request} {p : Phase} (h : s.Arrow r p) :
    s.phase ≠ .stopped ∧ s.phase ≠ .paused := by
  cases h with
  | forward _ hstep => cases hstep <;> grind
  | renegotiateService _ hp => unfold Phase.Serving at hp; grind
  | terminate hp => exact ⟨fun h => hp (.inr (.inl h)), fun h => hp (.inr (.inr h))⟩
  | pause hp _ => exact ⟨fun h => hp (.inr (.inl h)), fun h => hp (.inr (.inr h))⟩

end Sequencer

/-! ## A session as its caller drives it

A run is a list of calls, and its log has the requests that were accepted, each with the state it
was offered in. -/

/-- What a caller does to a sequencer: offer it a request (and say whether it carried
`EVProcessing = Ongoing`), tell it that a `FAILED_*` response has gone past, or resume a paused
session. -/
inductive Call where
  | accept (request : Request) (evProcessingOngoing : Bool)
  | failed
  | resume (transfer : EnergyTransfer)
  deriving DecidableEq, Repr

/-- One accepted request: the sequencer it was offered to and the phase it led to. -/
structure Accepted where
  before : Sequencer
  request : Request
  next : Phase
  deriving DecidableEq, Repr

namespace Sequencer

/-- The sequencer after a call. -/
def call (s : Sequencer) : Call → Sequencer
  | .accept request ongoing => (s.acceptProcessing request ongoing).2
  | .failed => s.recordFailure
  | .resume transfer => s.resume transfer

/-- What a call adds to the log of accepted requests: nothing when it is refused. -/
def logs (s : Sequencer) : Call → List Accepted
  | .accept request _ =>
      match s.nextPhase request with
      | some next => [⟨s, request, next⟩]
      | none => []
  | .failed | .resume _ => []

/-- The sequencer a run of `calls` on a fresh session leaves behind. -/
def after (calls : List Call) : Sequencer := run call new calls

/-- The requests a run of `calls` on a fresh session had accepted, in order. -/
def accepted (calls : List Call) : List Accepted := outputs call logs new calls

@[simp] theorem after_nil : after [] = new := rfl

@[simp] theorem accepted_nil : accepted [] = [] := rfl

@[simp] theorem after_concat (calls : List Call) (c : Call) :
    after (calls ++ [c]) = (after calls).call c := run_concat ..

@[simp] theorem accepted_concat (calls : List Call) (c : Call) :
    accepted (calls ++ [c]) = accepted calls ++ (after calls).logs c := outputs_concat ..

/-- **What a call can do.** It changes nothing, it records a failure, it resumes a paused
session, or it is an accepted request: the sequencer advances along an arrow and the log grows
by that step. -/
theorem call_cases (s : Sequencer) (c : Call) :
    (s.call c = s ∧ s.logs c = [])
      ∨ (s.call c = s.recordFailure ∧ s.logs c = [])
      ∨ (∃ t, c = .resume t ∧ s.call c = s.resume t ∧ s.logs c = [])
      ∨ ∃ r o p, c = .accept r o ∧ s.Arrow r p ∧ s.call c = s.advance r o p
          ∧ s.logs c = [⟨s, r, p⟩] := by
  cases c with
  | failed => exact .inr (.inl ⟨rfl, rfl⟩)
  | resume t => exact .inr (.inr (.inl ⟨t, rfl, rfl, rfl⟩))
  | accept r o =>
    cases h : s.nextPhase r with
    | none => exact .inl ⟨by simp [call, acceptProcessing, h], by simp [logs, h]⟩
    | some p =>
      exact .inr (.inr (.inr ⟨r, o, p, rfl, arrow_of_nextPhase h,
        by simp [call, acceptProcessing, h], by simp [logs, h]⟩))

end Sequencer

end Iso15118.Session.Iso20
