import Iso15118.Session.Basic
import Iso15118.Lib.Run

/-!
# The ISO 15118-2 sequencer

`session/iso2/mod.rs`: which request may follow which, as a graph over the phases of a
session. `Sequencer.nextPhase` is the whole table; `Sequencer.accept` consults it, records the
two facts later rows branch on (the payment option and the transfer mode), and sets
`renegotiated` when a session comes *back* to parameter discovery.

* **`Sequencer.Arrow`** — the table as a relation, one constructor per ordering rule with its
  guard, and **`arrow_of_nextPhase`** — every accepted request takes one of those arrows;
* **`Call`**, **`Sequencer.call`**, **`Sequencer.accepted`** — a session as its caller drives
  it: requests offered (refused ones change nothing) and `failed()` at any point, with the log
  of the steps that were accepted.
-/

namespace Iso15118.Session.Iso2

open Iso15118.Lib

/-! ## The data the graph branches on

A request is reduced to its kind and to the few fields the table looks at. -/

inductive ChargeProgress where
  | start
  | stop
  | renegotiate
  deriving DecidableEq, Repr

inductive ChargingSession where
  | terminate
  | pause
  deriving DecidableEq, Repr

inductive EnergyTransferMode where
  | acSinglePhaseCore
  | acThreePhaseCore
  | dcCore
  | dcExtended
  | dcComboCore
  | dcUnique
  deriving DecidableEq, Repr

inductive PaymentOption where
  | contract
  | externalPayment
  deriving DecidableEq, Repr

/-- `ResponseCode::FAILEDSequenceError as u8`. -/
def failedSequenceError : UInt8 := 5

/-- A request, reduced to what sequencing depends on. -/
inductive Request where
  | sessionSetup
  | serviceDiscovery
  | serviceDetail
  | paymentServiceSelection (option : PaymentOption)
  | certificateInstallation
  | certificateUpdate
  | paymentDetails
  | authorization
  | chargeParameterDiscovery (mode : EnergyTransferMode)
  | cableCheck
  | preCharge
  | powerDelivery (progress : ChargeProgress)
  | chargingStatus
  | currentDemand
  | meteringReceipt
  | weldingDetection
  | sessionStop (session : ChargingSession)
  deriving DecidableEq, Repr

/-- The element name, for logs and errors. -/
def Request.name : Request → String
  | .sessionSetup => "SessionSetupReq"
  | .serviceDiscovery => "ServiceDiscoveryReq"
  | .serviceDetail => "ServiceDetailReq"
  | .paymentServiceSelection _ => "PaymentServiceSelectionReq"
  | .certificateInstallation => "CertificateInstallationReq"
  | .certificateUpdate => "CertificateUpdateReq"
  | .paymentDetails => "PaymentDetailsReq"
  | .authorization => "AuthorizationReq"
  | .chargeParameterDiscovery _ => "ChargeParameterDiscoveryReq"
  | .cableCheck => "CableCheckReq"
  | .preCharge => "PreChargeReq"
  | .powerDelivery _ => "PowerDeliveryReq"
  | .chargingStatus => "ChargingStatusReq"
  | .currentDemand => "CurrentDemandReq"
  | .meteringReceipt => "MeteringReceiptReq"
  | .weldingDetection => "WeldingDetectionReq"
  | .sessionStop _ => "SessionStopReq"

/-- Where a session has got to. -/
inductive Phase where
  | start
  | sessionSetup
  | serviceDiscovery
  | serviceSelected
  | certificateInstalled
  | paymentDetails
  | authorized
  | chargeParameters
  | cableCheck
  | preCharge
  | charging
  | powerStopped
  | weldingDetection
  | paused
  | stopped
  deriving DecidableEq, Repr

def Phase.name : Phase → String
  | .start => "Start"
  | .sessionSetup => "SessionSetup"
  | .serviceDiscovery => "ServiceDiscovery"
  | .serviceSelected => "ServiceSelected"
  | .certificateInstalled => "CertificateInstalled"
  | .paymentDetails => "PaymentDetails"
  | .authorized => "Authorized"
  | .chargeParameters => "ChargeParameters"
  | .cableCheck => "CableCheck"
  | .preCharge => "PreCharge"
  | .charging => "Charging"
  | .powerStopped => "PowerStopped"
  | .weldingDetection => "WeldingDetection"
  | .paused => "Paused"
  | .stopped => "Stopped"

/-- Whether the session charges over AC or DC. -/
inductive Transfer where
  | ac
  | dc
  deriving DecidableEq, Repr

/-- `impl From<EnergyTransferMode> for Transfer`. -/
def Transfer.ofMode : EnergyTransferMode → Transfer
  | .acSinglePhaseCore => .ac
  | .acThreePhaseCore => .ac
  | _ => .dc

/-! ## The sequencer

The state, the table and the two things that a caller does: offer a request, and report a
failure. -/

structure Sequencer where
  phase : Phase
  security : Security
  transfer : Option Transfer
  payment : Option PaymentOption
  renegotiated : Bool
  failed : Bool
  deriving DecidableEq, Repr

namespace Sequencer

/-- `Sequencer::new`. -/
def new (security : Security) : Sequencer where
  phase := .start
  security := security
  transfer := none
  payment := none
  renegotiated := false
  failed := false

/-- What is left after a `FAILED_*` response: the vehicle may stop the session and nothing else.
A failure does not make a live cable safe to walk away from, so the pause rule stays. -/
def stopOnly (phase : Phase) (request : Request) : Option Phase :=
  match phase, request with
  | .start, _ | .stopped, _ | .paused, _ => none
  | _, .sessionStop .terminate => some .stopped
  | .cableCheck, .sessionStop .pause
  | .preCharge, .sessionStop .pause
  | .charging, .sessionStop .pause => none
  | _, .sessionStop .pause => some .paused
  | _, _ => none

/-- The flow of a session that has not failed, from `phase` on. -/
def flow (s : Sequencer) (phase : Phase) (request : Request) : Option Phase :=
  let dc := s.transfer = some .dc
  let contract := s.payment = some .contract
  match phase, request with
  | .start, .sessionSetup => some .sessionSetup
  | .sessionSetup, .serviceDiscovery => some .serviceDiscovery
  | .serviceDiscovery, .serviceDetail => some .serviceDiscovery
  -- Plug & Charge is not available without TLS.
  | .serviceDiscovery, .paymentServiceSelection option =>
      if option = .contract ∧ ¬ s.security.permitsPlugAndCharge then none
      else some .serviceSelected
  | .serviceSelected, .certificateInstallation
  | .serviceSelected, .certificateUpdate =>
      if contract then some .certificateInstalled else none
  | .serviceSelected, .paymentDetails
  | .certificateInstalled, .paymentDetails => if contract then some .paymentDetails else none
  | .serviceSelected, .authorization => if ¬ contract then some .authorized else none
  | .paymentDetails, .authorization => some .authorized
  | .authorized, .authorization => some .authorized
  | .authorized, .chargeParameterDiscovery _ => some .chargeParameters
  | .chargeParameters, .chargeParameterDiscovery _ => some .chargeParameters
  | .chargeParameters, .cableCheck => if dc then some .cableCheck else none
  -- AC has no isolation test and no pre-charge; DC has both, but only once.
  | .chargeParameters, .powerDelivery .start =>
      if ¬ dc ∨ s.renegotiated then some .charging else none
  | .cableCheck, .cableCheck => some .cableCheck
  | .cableCheck, .preCharge => some .preCharge
  | .preCharge, .preCharge => some .preCharge
  | .preCharge, .powerDelivery .start => some .charging
  -- The charge loop.
  | .charging, .chargingStatus => if ¬ dc then some .charging else none
  | .charging, .currentDemand => if dc then some .charging else none
  | .charging, .meteringReceipt => if contract then some .charging else none
  | .charging, .powerDelivery .renegotiate => some .chargeParameters
  | .charging, .powerDelivery .stop => some .powerStopped
  | .powerStopped, .chargeParameterDiscovery _ => if dc then some .chargeParameters else none
  | .charging, .chargeParameterDiscovery _ =>
      if dc ∧ contract then some .chargeParameters else none
  | .powerStopped, .weldingDetection => if dc then some .weldingDetection else none
  | .weldingDetection, .weldingDetection => some .weldingDetection
  -- Stopping is legal from any established phase, pausing not while the cable is live.
  | .start, .sessionStop _ | .stopped, .sessionStop _ | .paused, .sessionStop _ => none
  | _, .sessionStop .terminate => some .stopped
  | .cableCheck, .sessionStop .pause
  | .preCharge, .sessionStop .pause
  | .charging, .sessionStop .pause => none
  | _, .sessionStop .pause => some .paused
  | _, _ => none

/-- The phase `request` would move the session to, or `none` if it is out of sequence.
The whole of the ISO 15118-2 flow. -/
def nextPhase (s : Sequencer) (request : Request) : Option Phase :=
  if s.failed then stopOnly s.phase request else s.flow s.phase request

/-- The refusal `request` would earn right now. -/
def refusal (s : Sequencer) (request : Request) : SequenceError where
  got := request.name
  phase := s.phase.name
  responseCode := failedSequenceError

/-- True when `request` would be accepted right now. -/
def permits (s : Sequencer) (request : Request) : Bool :=
  (s.nextPhase request).isSome

/-- The state after an accepted request that leads to `next`. The facts the rest of the graph
branches on are recorded from the request; `renegotiated` from the transition. -/
def advance (s : Sequencer) (request : Request) (next : Phase) : Sequencer :=
  { s with
    phase := next
    payment :=
      match request with
      | .paymentServiceSelection option => some option
      | _ => s.payment
    transfer :=
      match request with
      | .chargeParameterDiscovery mode => some (Transfer.ofMode mode)
      | _ => s.transfer
    renegotiated :=
      s.renegotiated
        || decide (next = .chargeParameters ∧ (s.phase = .charging ∨ s.phase = .powerStopped)) }

@[simp] theorem advance_phase (s : Sequencer) (r : Request) (p : Phase) :
    (s.advance r p).phase = p := rfl

/-- `Sequencer::accept`: the answer, and the sequencer afterwards — the same one when the
request is refused. -/
def accept (s : Sequencer) (request : Request) : Except SequenceError Phase × Sequencer :=
  match s.nextPhase request with
  | none => (.error (s.refusal request), s)
  | some next => (.ok next, s.advance request next)

/-- `Sequencer::failed`. -/
def recordFailure (s : Sequencer) : Sequencer := { s with failed := true }

end Sequencer

/-! ## The table as a relation

`Sequencer.Forward` has one constructor per ordering rule of the flow proper, with the guard
the rule carries; `Sequencer.Arrow` adds the two ways of stopping, which a recorded failure
leaves open. Every proof about accepted requests goes by cases on these instead of unfolding
the table again. -/

/-- The phases no request leaves: nothing has been set up yet, or the session is over. -/
def Phase.Closed (p : Phase) : Prop := p = .start ∨ p = .stopped ∨ p = .paused

/-- The phases in which the code takes the cable to be live, and refuses a pause. -/
def Phase.Live (p : Phase) : Prop := p = .cableCheck ∨ p = .preCharge ∨ p = .charging

namespace Sequencer

/-- The ordering rules that lead on through a session, each with its guard. -/
inductive Forward (s : Sequencer) : Request → Phase → Prop where
  | sessionSetup (hp : s.phase = .start) : Forward s .sessionSetup .sessionSetup
  | serviceDiscovery (hp : s.phase = .sessionSetup) : Forward s .serviceDiscovery .serviceDiscovery
  | serviceDetail (hp : s.phase = .serviceDiscovery) : Forward s .serviceDetail .serviceDiscovery
  | selectPayment (option : PaymentOption) (hp : s.phase = .serviceDiscovery)
      (htls : option = .contract → s.security.permitsPlugAndCharge = true) :
      Forward s (.paymentServiceSelection option) .serviceSelected
  | installCertificate (hp : s.phase = .serviceSelected) (hc : s.payment = some .contract) :
      Forward s .certificateInstallation .certificateInstalled
  | updateCertificate (hp : s.phase = .serviceSelected) (hc : s.payment = some .contract) :
      Forward s .certificateUpdate .certificateInstalled
  | paymentDetails (hp : s.phase = .serviceSelected ∨ s.phase = .certificateInstalled)
      (hc : s.payment = some .contract) : Forward s .paymentDetails .paymentDetails
  | authorizeExternal (hp : s.phase = .serviceSelected) (hc : s.payment ≠ some .contract) :
      Forward s .authorization .authorized
  | authorize (hp : s.phase = .paymentDetails ∨ s.phase = .authorized) :
      Forward s .authorization .authorized
  | discoverParameters (mode : EnergyTransferMode)
      (hp : s.phase = .authorized ∨ s.phase = .chargeParameters) :
      Forward s (.chargeParameterDiscovery mode) .chargeParameters
  | beginCableCheck (hp : s.phase = .chargeParameters) (hdc : s.transfer = some .dc) :
      Forward s .cableCheck .cableCheck
  | startDirectly (hp : s.phase = .chargeParameters)
      (hdc : s.transfer ≠ some .dc ∨ s.renegotiated = true) :
      Forward s (.powerDelivery .start) .charging
  | repeatCableCheck (hp : s.phase = .cableCheck) : Forward s .cableCheck .cableCheck
  | preCharge (hp : s.phase = .cableCheck ∨ s.phase = .preCharge) : Forward s .preCharge .preCharge
  | startAfterPreCharge (hp : s.phase = .preCharge) : Forward s (.powerDelivery .start) .charging
  | chargingStatus (hp : s.phase = .charging) (hdc : s.transfer ≠ some .dc) :
      Forward s .chargingStatus .charging
  | currentDemand (hp : s.phase = .charging) (hdc : s.transfer = some .dc) :
      Forward s .currentDemand .charging
  | meteringReceipt (hp : s.phase = .charging) (hc : s.payment = some .contract) :
      Forward s .meteringReceipt .charging
  | renegotiate (hp : s.phase = .charging) :
      Forward s (.powerDelivery .renegotiate) .chargeParameters
  | stopPower (hp : s.phase = .charging) : Forward s (.powerDelivery .stop) .powerStopped
  | rediscoverStopped (mode : EnergyTransferMode) (hp : s.phase = .powerStopped)
      (hdc : s.transfer = some .dc) : Forward s (.chargeParameterDiscovery mode) .chargeParameters
  | rediscoverCharging (mode : EnergyTransferMode) (hp : s.phase = .charging)
      (hdc : s.transfer = some .dc) (hc : s.payment = some .contract) :
      Forward s (.chargeParameterDiscovery mode) .chargeParameters
  | weldingDetection (hp : s.phase = .powerStopped) (hdc : s.transfer = some .dc) :
      Forward s .weldingDetection .weldingDetection
  | repeatWeldingDetection (hp : s.phase = .weldingDetection) :
      Forward s .weldingDetection .weldingDetection

/-- Every way a request can be accepted. -/
inductive Arrow (s : Sequencer) : Request → Phase → Prop where
  | forward {r : Request} {p : Phase} (hf : s.failed = false) (h : Forward s r p) : Arrow s r p
  | terminate (hp : ¬ Phase.Closed s.phase) : Arrow s (.sessionStop .terminate) .stopped
  | pause (hp : ¬ Phase.Closed s.phase) (hl : ¬ Phase.Live s.phase) :
      Arrow s (.sessionStop .pause) .paused

theorem arrow_of_stopOnly {s : Sequencer} {r : Request} {p : Phase}
    (h : stopOnly s.phase r = some p) : s.Arrow r p := by
  unfold stopOnly at h
  split at h
  case h_4 hstart hstopped hpaused =>
    cases h
    exact .terminate (by rintro (h | h | h) <;> simp_all)
  case h_8 hstart hstopped hpaused hcable hpre hcharging =>
    cases h
    exact .pause (by rintro (h | h | h) <;> simp_all) (by rintro (h | h | h) <;> simp_all)
  -- every other arm refuses
  all_goals cases h

/-- What the table of `Sequencer::flow` lets through is an arrow of the diagram: the arms in the
order of the table, one after another. -/
theorem arrow_of_flow {s : Sequencer} {r : Request} {p : Phase} (hf : s.failed = false)
    (h : s.flow s.phase r = some p) : s.Arrow r p := by
  unfold flow at h
  split at h
  -- the refusing arms go; a guarded arm leaves its guard, in the order of the table
  all_goals simp only [Option.ite_none_right_eq_some, Option.ite_none_left_eq_some,
    Option.some.injEq, reduceCtorEq] at h
  -- up to the means of payment
  · next hp =>
    subst h
    exact .forward hf (.sessionSetup hp)
  · next hp =>
    subst h
    exact .forward hf (.serviceDiscovery hp)
  · next hp =>
    subst h
    exact .forward hf (.serviceDetail hp)
  · next option hp =>
    obtain ⟨hc, rfl⟩ := h
    refine .forward hf (.selectPayment option hp fun ho => ?_)
    by_contra htls
    exact hc ⟨ho, htls⟩
  -- what a contract may ask for, each under its own guard
  · next hp =>
    obtain ⟨hc, rfl⟩ := h
    exact .forward hf (.installCertificate hp hc)
  · next hp =>
    obtain ⟨hc, rfl⟩ := h
    exact .forward hf (.updateCertificate hp hc)
  · next hp =>
    obtain ⟨hc, rfl⟩ := h
    exact .forward hf (.paymentDetails (.inl hp) hc)
  · next hp =>
    obtain ⟨hc, rfl⟩ := h
    exact .forward hf (.paymentDetails (.inr hp) hc)
  · next hp =>
    obtain ⟨hc, rfl⟩ := h
    exact .forward hf (.authorizeExternal hp hc)
  -- authorization is repeated, and so is the choice of parameters
  · next hp =>
    subst h
    exact .forward hf (.authorize (.inl hp))
  · next hp =>
    subst h
    exact .forward hf (.authorize (.inr hp))
  · next hp =>
    subst h
    exact .forward hf (.discoverParameters _ (.inl hp))
  · next hp =>
    subst h
    exact .forward hf (.discoverParameters _ (.inr hp))
  -- the way to power, which direct current takes through a cable check
  · next hp =>
    obtain ⟨hdc, rfl⟩ := h
    exact .forward hf (.beginCableCheck hp hdc)
  · next hp =>
    obtain ⟨hdc, rfl⟩ := h
    exact .forward hf (.startDirectly hp hdc)
  · next hp =>
    subst h
    exact .forward hf (.repeatCableCheck hp)
  · next hp =>
    subst h
    exact .forward hf (.preCharge (.inl hp))
  · next hp =>
    subst h
    exact .forward hf (.preCharge (.inr hp))
  · next hp =>
    subst h
    exact .forward hf (.startAfterPreCharge hp)
  -- the loop, one message for each kind of current
  · next hp =>
    obtain ⟨hdc, rfl⟩ := h
    exact .forward hf (.chargingStatus hp hdc)
  · next hp =>
    obtain ⟨hdc, rfl⟩ := h
    exact .forward hf (.currentDemand hp hdc)
  · next hp =>
    obtain ⟨hc, rfl⟩ := h
    exact .forward hf (.meteringReceipt hp hc)
  · next hp =>
    subst h
    exact .forward hf (.renegotiate hp)
  · next hp =>
    subst h
    exact .forward hf (.stopPower hp)
  -- the same request means another start, from a stop as well as out of the loop
  · next hp =>
    obtain ⟨hdc, rfl⟩ := h
    exact .forward hf (.rediscoverStopped _ hp hdc)
  · next hp =>
    obtain ⟨⟨hdc, hc⟩, rfl⟩ := h
    exact .forward hf (.rediscoverCharging _ hp hdc hc)
  · next hp =>
    obtain ⟨hdc, rfl⟩ := h
    exact .forward hf (.weldingDetection hp hdc)
  · next hp =>
    subst h
    exact .forward hf (.repeatWeldingDetection hp)
  -- ending and pausing are not tied to a phase, and name those they are refused in
  · next hstart hstopped hpaused =>
    subst h
    exact .terminate (by rintro (h | h | h) <;> simp_all)
  · next hstart hstopped hpaused hcable hpre hcharging =>
    subst h
    exact .pause (by rintro (h | h | h) <;> simp_all) (by rintro (h | h | h) <;> simp_all)

/-- Every accepted request takes one of the arrows. -/
theorem arrow_of_nextPhase {s : Sequencer} {r : Request} {p : Phase}
    (h : s.nextPhase r = some p) : s.Arrow r p := by
  unfold nextPhase at h
  split at h
  · exact arrow_of_stopOnly h
  · next hf => exact arrow_of_flow (by simpa using hf) h

/-- Nothing is accepted once the session is over. -/
theorem Arrow.not_over {s : Sequencer} {r : Request} {p : Phase} (h : s.Arrow r p) :
    s.phase ≠ .stopped ∧ s.phase ≠ .paused := by
  cases h with
  | forward _ hstep => cases hstep <;> grind
  | terminate hp => exact ⟨fun h => hp (.inr (.inl h)), fun h => hp (.inr (.inr h))⟩
  | pause hp _ => exact ⟨fun h => hp (.inr (.inl h)), fun h => hp (.inr (.inr h))⟩

end Sequencer

/-! ## A session as its caller drives it

A run is a list of calls, and its log has the requests that were accepted, each with the state it
was offered in. -/

/-- What a caller does to a sequencer: offer it a request, or tell it that a `FAILED_*`
response has gone past. -/
inductive Call where
  | accept (request : Request)
  | failed
  deriving DecidableEq, Repr

/-- One accepted request: the sequencer it was offered to and the phase it led to. -/
structure Accepted where
  before : Sequencer
  request : Request
  next : Phase
  deriving DecidableEq, Repr

namespace Sequencer

/-- The sequencer after a call. -/
def call (s : Sequencer) : Call → Sequencer
  | .accept request => (s.accept request).2
  | .failed => s.recordFailure

/-- What a call adds to the log of accepted requests: nothing when it is refused. -/
def logs (s : Sequencer) : Call → List Accepted
  | .accept request =>
      match s.nextPhase request with
      | some next => [⟨s, request, next⟩]
      | none => []
  | .failed => []

/-- The sequencer a run of `calls` on a fresh session leaves behind. -/
def after (security : Security) (calls : List Call) : Sequencer :=
  run call (new security) calls

/-- The requests a run of `calls` on a fresh session had accepted, in order. -/
def accepted (security : Security) (calls : List Call) : List Accepted :=
  outputs call logs (new security) calls

@[simp] theorem after_nil (security : Security) : after security [] = new security := rfl

@[simp] theorem accepted_nil (security : Security) : accepted security [] = [] := rfl

@[simp] theorem after_concat (security : Security) (calls : List Call) (c : Call) :
    after security (calls ++ [c]) = (after security calls).call c := run_concat ..

@[simp] theorem accepted_concat (security : Security) (calls : List Call) (c : Call) :
    accepted security (calls ++ [c])
      = accepted security calls ++ (after security calls).logs c := outputs_concat ..

/-- **What a call can do.** It changes nothing, it records a failure, or it is an accepted
request: the sequencer advances along an arrow and the log grows by that step. -/
theorem call_cases (s : Sequencer) (c : Call) :
    (s.call c = s ∧ s.logs c = [])
      ∨ (s.call c = s.recordFailure ∧ s.logs c = [])
      ∨ ∃ r p, c = .accept r ∧ s.Arrow r p ∧ s.call c = s.advance r p ∧ s.logs c = [⟨s, r, p⟩] := by
  cases c with
  | failed => exact .inr (.inl ⟨rfl, rfl⟩)
  | accept r =>
    cases h : s.nextPhase r with
    | none => exact .inl ⟨by simp [call, accept, h], by simp [logs, h]⟩
    | some p =>
      exact .inr (.inr ⟨r, p, rfl, arrow_of_nextPhase h, by simp [call, accept, h],
        by simp [logs, h]⟩)

end Sequencer

end Iso15118.Session.Iso2
