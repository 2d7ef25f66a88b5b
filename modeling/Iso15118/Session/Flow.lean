import Iso15118.Message.Basic
import Iso15118.Session.Timers

/-!
# The ordering rules behind one type

`session/mod.rs`: a session runs the sequencer of the generation it negotiated, and the engines
talk to it in messages. Here is how a message becomes a request of either sequencer — the tables
`Request::of` — and **`Flow`**, which consults the sequencer on it.

An ISO 15118-20 flow checks one thing more: a request of a message set the session did not select
is out of sequence, however legal the same request is in the right set.

The tables say more than which request a message is: they hold the times a request is allowed and
the loop budget of a phase as well, for the engines ask the flow for both. What the engines rely on
is gathered at the end: which errors there are and what each of them leaves behind (`accept_cases`),
that a flow never changes its generation, and that putting a session id into a request changes
nothing a flow reads.
-/

namespace Iso15118.Session

open Iso15118.V2gtp (PayloadType)

inductive Role where
  | evcc
  | secc
  deriving DecidableEq, Repr

/-! ## ISO 15118-2 messages as requests

The tables that make a request of a message, with the times each request is given. -/

namespace Iso2

namespace Request

/-- `Request::of_body`. -/
def ofBody : Message.Iso2.BodyChoice → Option Request
  | .request .sessionSetup _ => some .sessionSetup
  | .request .serviceDiscovery _ => some .serviceDiscovery
  | .request .serviceDetail _ => some .serviceDetail
  | .request (.paymentServiceSelection option) _ => some (.paymentServiceSelection option)
  | .request .certificateInstallation _ => some .certificateInstallation
  | .request .certificateUpdate _ => some .certificateUpdate
  | .request .paymentDetails _ => some .paymentDetails
  | .request .authorization _ => some .authorization
  | .request (.chargeParameterDiscovery mode) _ => some (.chargeParameterDiscovery mode)
  | .request .cableCheck _ => some .cableCheck
  | .request .preCharge _ => some .preCharge
  | .request (.powerDelivery progress) _ => some (.powerDelivery progress)
  | .request .chargingStatus _ => some .chargingStatus
  | .request .currentDemand _ => some .currentDemand
  | .request .meteringReceipt _ => some .meteringReceipt
  | .request .weldingDetection _ => some .weldingDetection
  | .request (.sessionStop session) _ => some (.sessionStop session)
  | _ => none

/-- `Request::of`: only what is inside the `V2G_Message` root. -/
def of : Message → Option Request
  | .iso2 (.v2gMessage _ body) => body.bind ofBody
  | _ => none

/-- How long the vehicle waits for the answer. -/
def responseTimeout : Request → Millis
  | .currentDemand => Timing.Iso2.msgTimeoutCurrentDemand
  | .serviceDetail | .paymentDetails | .powerDelivery _ | .certificateInstallation
  | .certificateUpdate => Timing.Iso2.msgTimeoutBackend
  | _ => Timing.Iso2.msgTimeoutDefault

/-- How long the station has to answer, in its own table of the standard. -/
def performanceTime : Request → Millis
  | .currentDemand => Timing.Iso2.seccMsgPerformanceCurrentDemand
  | .serviceDetail | .paymentDetails | .powerDelivery _ | .certificateInstallation
  | .certificateUpdate => Timing.Iso2.seccMsgPerformanceBackend
  | _ => Timing.Iso2.seccMsgPerformanceDefault

end Request

/-- The budget of a phase that may be answered `..._Ongoing`, as each side bounds it. -/
def Phase.loopTimeout : Phase → Role → Option Millis
  | .cableCheck, .evcc => some Timing.Iso2.evccCableCheckTimeout
  | .cableCheck, .secc => some Timing.Iso2.seccCableCheckPerformanceTime
  | .preCharge, .evcc => some Timing.Iso2.evccPreChargeTimeout
  | .preCharge, .secc => some Timing.Iso2.seccPreChargePerformanceTime
  | .authorized, .evcc | .chargeParameters, .evcc | .weldingDetection, .evcc =>
      some Timing.Iso2.evccOngoingTimeout
  | .authorized, .secc | .chargeParameters, .secc | .weldingDetection, .secc =>
      some Timing.Iso2.seccOngoingPerformanceTime
  | _, _ => none

namespace Sequencer

/-- `Sequencer::is_finished`. -/
def isFinished (s : Sequencer) : Bool := s.phase = .stopped ∨ s.phase = .paused

/-- `Sequencer::is_paused`. -/
def isPaused (s : Sequencer) : Bool := s.phase = .paused

end Sequencer

end Iso2

/-! ## ISO 15118-20 messages as requests

The same for each message set. The services and their ids come from the standard's table. -/

namespace Iso20

namespace Service

/-- The payload type of the service's own message set. -/
def payloadType : Service → PayloadType
  | .ac => .part20Ac
  -- MCS has no message set of its own: it runs the DC one.
  | .dc | .mcs => .part20Dc
  | .wpt => .part20Wpt
  | .acdp => .part20Acdp
  | .acDerIec => .part20AcDerIec
  | .acDerSae => .part20AcDerSae

/-- Whether a session with this service carries the payload type: its own set, and for the
pantograph the DC set as well. -/
def admits (s : Service) (payloadType : PayloadType) : Bool :=
  match s, payloadType with
  | .acdp, .part20Dc | .acdp, .part20Acdp => true
  | .acdp, _ => false
  | s, t => s.payloadType.asU16 = t.asU16

/-- `Service::from_service_id`. -/
def fromServiceId (id : UInt16) : Option Service :=
  if id = 1 ∨ id = 5 then some .ac
  else if id = 2 ∨ id = 6 then some .dc
  else if id = 3 then some .wpt
  else if id = 4 ∨ id = 7 then some .acdp
  else if id = 8 ∨ id = 9 then some .mcs
  else if id = 10 then some .acDerIec
  else if id = 11 then some .acDerSae
  else none

end Service

/-- `EnergyTransfer::from_service_id`. -/
def EnergyTransfer.fromServiceId (id : UInt16) : Option EnergyTransfer :=
  (Service.fromServiceId id).map fun service =>
    ⟨service, decide (5 ≤ id ∧ id ≤ 7 ∨ 9 ≤ id ∧ id ≤ 11)⟩

namespace Request

/-- `Request::of_common`. A service selection is one only with a service id that is known. -/
def ofCommon : Message.Iso20.Messages.Document → Option Request
  | .request .sessionSetup _ _ => some .sessionSetup
  | .request .authorizationSetup _ _ => some .authorizationSetup
  | .request .authorization _ _ => some .authorization
  | .request .certificateInstallation _ _ => some .certificateInstallation
  | .request .serviceDiscovery _ _ => some .serviceDiscovery
  | .request .serviceDetail _ _ => some .serviceDetail
  | .request (.serviceSelection id) _ _ =>
      (EnergyTransfer.fromServiceId id).map .serviceSelection
  | .request .scheduleExchange _ _ => some .scheduleExchange
  | .request (.powerDelivery _ progress) _ _ => some (.powerDelivery progress)
  | .request .meteringConfirmation _ _ => some .meteringConfirmation
  | .request (.sessionStop session) _ _ => some (.sessionStop session)
  | .request .vehicleCheckIn _ _ => some .vehicleCheckIn
  | .request .vehicleCheckOut _ _ => some .vehicleCheckOut
  | _ => none

/-- `Request::of_ac`, and the same table over the two sets for distributed energy resources. -/
def ofAc {Other : Type} :
    Message.Iso20.Document Message.Iso20.Ac.Exchange Message.Iso20.Ac.Exchange Other →
      Option Request
  | .request .chargeParameterDiscovery _ _ => some .chargeParameterDiscovery
  | .request .chargeLoop _ _ => some .chargeLoop
  | _ => none

/-- `Request::of_dc`. -/
def ofDc : Message.Iso20.Dc.Document → Option Request
  | .request .chargeParameterDiscovery _ _ => some .chargeParameterDiscovery
  | .request .cableCheck _ _ => some .cableCheck
  | .request .preCharge _ _ => some .preCharge
  | .request .chargeLoop _ _ => some .chargeLoop
  | .request .weldingDetection _ _ => some .weldingDetection
  | _ => none

/-- `Request::of_wpt`. -/
def ofWpt : Message.Iso20.Wpt.Document → Option Request
  | .request .chargeParameterDiscovery _ _ => some .chargeParameterDiscovery
  | .request .chargeLoop _ _ => some .chargeLoop
  | .request .finePositioningSetup _ _ | .request .finePositioning _ _
  | .request .pairing _ _ | .request .alignmentCheck _ _ => some .wptPositioning
  | _ => none

/-- `Request::of_acdp`. -/
def ofAcdp : Message.Iso20.Acdp.Document → Option Request
  | .request .vehiclePositioning _ _ | .request .connect _ _ | .request .disconnect _ _
  | .request .systemStatus _ _ => some .acdpControl
  | _ => none

/-- `Request::of`. -/
def of : Message → Option Request
  | .iso20 doc => ofCommon doc
  | .iso20Ac doc => ofAc doc
  | .iso20Dc doc => ofDc doc
  | .iso20Wpt doc => ofWpt doc
  | .iso20Acdp doc => ofAcdp doc
  | .iso20AcDerIec doc => ofAc doc
  | .iso20AcDerSae doc => ofAc doc
  | _ => none

/-- How long the vehicle waits for the answer. -/
def responseTimeout : Request → Millis
  | .chargeLoop => Timing.Iso2.msgTimeoutCurrentDemand
  | .authorization | .authorizationSetup | .certificateInstallation | .serviceDetail
  | .scheduleExchange | .powerDelivery _ | .meteringConfirmation => Timing.Iso2.msgTimeoutBackend
  | _ => Timing.Iso2.msgTimeoutDefault

def performanceTime : Request → Millis
  | .chargeLoop => Timing.Iso2.seccMsgPerformanceCurrentDemand
  | .authorization | .authorizationSetup | .certificateInstallation | .serviceDetail
  | .scheduleExchange | .powerDelivery _ | .meteringConfirmation =>
      Timing.Iso2.seccMsgPerformanceBackend
  | _ => Timing.Iso2.seccMsgPerformanceDefault

end Request

/-- `power_delivery_ongoing`: a `PowerDeliveryReq` of a vehicle that is still starting. -/
def powerDeliveryOngoing : Message → Bool
  | .iso20 (.request (.powerDelivery processing _) _ _) => processing ≠ .finished
  | _ => false

def Phase.loopTimeout : Phase → Role → Option Millis
  | .authorized, .evcc => some Timing.Iso20.eimOngoingTimeout
  | .authorized, .secc => some Timing.Iso20.seccEimOngoingPerformanceTime
  | .chargeParameters, .evcc | .scheduleExchanged, .evcc | .weldingDetection, .evcc =>
      some Timing.Iso20.ongoingTimeout
  | .chargeParameters, .secc | .scheduleExchanged, .secc | .weldingDetection, .secc =>
      some Timing.Iso20.seccOngoingPerformanceTime
  | .cableCheck, .evcc => some Timing.Iso2.evccCableCheckTimeout
  | .cableCheck, .secc => some Timing.Iso2.seccCableCheckPerformanceTime
  | .preCharge, .evcc => some Timing.Iso2.evccPreChargeTimeout
  | .preCharge, .secc => some Timing.Iso2.seccPreChargePerformanceTime
  | _, _ => none

namespace Sequencer

/-- `Sequencer::is_finished`. -/
def isFinished (s : Sequencer) : Bool := s.phase = .stopped ∨ s.phase = .paused

/-- `Sequencer::is_paused`. -/
def isPaused (s : Sequencer) : Bool := s.phase = .paused

/-- `Sequencer::admits`: the common messages always, a set of a service when it is the selected
service's. -/
def admits (s : Sequencer) : PayloadType → Bool
  | .part20Main => true
  | other => s.service.any (·.admits other)

end Sequencer

end Iso20

/-! ### A stamp changes nothing the sequencers read

A session id is put into a request before the flow sees it; no table looks at the header. -/

theorem Iso2.Request.of_setSessionId (m : Message) (id : SessionId) :
    of (m.setSessionId id).2 = of m := by
  cases m with
  | iso2 doc => cases doc <;> rfl
  | appProtocolReq req => rfl
  | appProtocolRes res => rfl
  | iso20 doc | iso20Ac doc | iso20Dc doc | iso20Wpt doc | iso20Acdp doc | iso20AcDerIec doc
  | iso20AcDerSae doc => cases doc <;> rfl

theorem Iso20.Request.of_setSessionId (m : Message) (id : SessionId) :
    of (m.setSessionId id).2 = of m := by
  cases m with
  | iso2 doc => cases doc <;> rfl
  | appProtocolReq req => rfl
  | appProtocolRes res => rfl
  | iso20 doc | iso20Ac doc | iso20Dc doc | iso20Wpt doc | iso20Acdp doc | iso20AcDerIec doc
  | iso20AcDerSae doc =>
    cases doc with
    | request element header rest => cases element <;> rfl
    | response element header code rest => rfl
    | other element rest => rfl

theorem Iso20.powerDeliveryOngoing_setSessionId (m : Message) (id : SessionId) :
    powerDeliveryOngoing (m.setSessionId id).2 = powerDeliveryOngoing m := by
  cases m with
  | iso2 doc => cases doc <;> rfl
  | appProtocolReq req => rfl
  | appProtocolRes res => rfl
  | iso20 doc | iso20Ac doc | iso20Dc doc | iso20Wpt doc | iso20Acdp doc | iso20AcDerIec doc
  | iso20AcDerSae doc =>
    cases doc with
    | request element header rest => cases element <;> rfl
    | response element header code rest => rfl
    | other element rest => rfl

/-! ### Names

The name of the request is that of its message. -/

theorem Iso2.Request.name_of {m : Message} {r : Iso2.Request} (h : Iso2.Request.of m = some r) :
    m.name = r.name := by
  unfold Iso2.Request.of at h
  split at h
  · next header body =>
    cases body with
    | none => cases h
    | some choice =>
      cases choice with
      | request element rest => cases element <;> cases h <;> rfl
      | response element code rest => cases h
      | bodyElement rest => cases h
  · cases h

/-- A setup or a stop goes by one name in the message and in the sequencer. -/
theorem Iso20.Request.name_of {m : Message} {r : Iso20.Request} (h : Iso20.Request.of m = some r)
    (hr : r = .sessionSetup ∨ ∃ session, r = .sessionStop session) : m.name = r.name := by
  have hmain : ∀ doc, m = .iso20 doc → m.name = r.name := by
    rintro doc rfl
    cases doc with
    | request element header rest =>
      cases element with
      | serviceSelection id =>
        obtain ⟨transfer, -, rfl⟩ := Option.map_eq_some_iff.mp h
        simp at hr
      | authorization | authorizationSetup | certificateInstallation | meteringConfirmation
      | powerDelivery _ _ | scheduleExchange | serviceDetail | serviceDiscovery | sessionSetup
      | sessionStop _ | vehicleCheckIn | vehicleCheckOut =>
        cases h
        rfl
    | response element header code rest => cases h
    | other element rest => cases h
  -- the sets of the services have neither
  cases m with
  | iso20 doc => exact hmain doc rfl
  | appProtocolReq req | appProtocolRes res | iso2 doc => cases h
  | iso20Ac doc | iso20Dc doc | iso20Wpt doc | iso20Acdp doc | iso20AcDerIec doc
  | iso20AcDerSae doc =>
    cases doc with
    | request element header rest =>
      cases element <;> cases h <;> simp at hr
    | response element header code rest => cases h
    | other element rest => cases h

/-! ## The flow

Both sequencers behind one type, which is where a message of the other generation is turned away. -/

/-- The sequencer of the generation a session negotiated. -/
inductive Flow where
  | iso2 (sequencer : Iso2.Sequencer)
  | iso20 (sequencer : Iso20.Sequencer)
  deriving DecidableEq, Repr

inductive FlowError where
  | sequence (error : SequenceError)
  | notARequest
  deriving DecidableEq, Repr

inductive ResumeError where
  | notNegotiated
  | notIso20
  deriving DecidableEq, Repr

/-- A deployment's own bounds for the `..._Ongoing` loops. -/
structure LoopBudgets where
  authorization : Option Millis
  ongoing : Option Millis
  deriving DecidableEq, Repr

namespace Flow

/-- `Flow::supports`. -/
def supports : Protocol → Bool
  | .iso2 => true
  | .iso20 => true
  | .din70121 => false

/-- `Flow::new`. -/
def new (protocol : Protocol) (security : Security) : Option Flow :=
  match protocol with
  | .iso2 => some (.iso2 (.new security))
  | .iso20 => some (.iso20 .new)
  | .din70121 => none

/-- The generation the flow is of. -/
def protocol : Flow → Protocol
  | .iso2 _ => .iso2
  | .iso20 _ => .iso20

/-- `Flow::accept`: the answer, and the flow afterwards — the same one when the message is
refused. -/
def accept (flow : Flow) (message : Message) : Except FlowError Unit × Flow :=
  match flow with
  | .iso2 s =>
      match Iso2.Request.of message with
      | none => (.error .notARequest, .iso2 s)
      | some request =>
          let (answer, s') := s.accept request
          match answer with
          | .ok _ => (.ok (), .iso2 s')
          | .error e => (.error (.sequence e), .iso2 s')
  | .iso20 s =>
      match Iso20.Request.of message with
      | none => (.error .notARequest, .iso20 s)
      | some request =>
          if ¬ s.admits message.payloadType then
            (.error (.sequence (s.refusal request)), .iso20 s)
          else
            let (answer, s') := s.acceptProcessing request (Iso20.powerDeliveryOngoing message)
            match answer with
            | .ok _ => (.ok (), .iso20 s')
            | .error e => (.error (.sequence e), .iso20 s')

/-- `Flow::permits`: whether `message` would be accepted right now, without accepting it. -/
def permits (flow : Flow) (message : Message) : Except FlowError Unit :=
  match flow with
  | .iso2 s =>
      match Iso2.Request.of message with
      | none => .error .notARequest
      | some request =>
          if ¬ s.permits request then .error (.sequence (s.refusal request)) else .ok ()
  | .iso20 s =>
      match Iso20.Request.of message with
      | none => .error .notARequest
      | some request =>
          if ¬ s.admits message.payloadType ∨ ¬ s.permits request then
            .error (.sequence (s.refusal request))
          else .ok ()

def isFinished : Flow → Bool
  | .iso2 s => s.isFinished
  | .iso20 s => s.isFinished

def isPaused : Flow → Bool
  | .iso2 s => s.isPaused
  | .iso20 s => s.isPaused

/-- `Flow::failed`. -/
def recordFailure : Flow → Flow
  | .iso2 s => .iso2 s.recordFailure
  | .iso20 s => .iso20 s.recordFailure

/-- `Flow::resume`. -/
def resume (flow : Flow) (transfer : Iso20.EnergyTransfer) : Except ResumeError Flow :=
  match flow with
  | .iso2 _ => .error .notIso20
  | .iso20 s => .ok (.iso20 (s.resume transfer))

/-- `Flow::is_dc_safety_phase`. -/
def isDcSafetyPhase : Flow → Bool
  | .iso2 s => s.phase = .cableCheck ∨ s.phase = .preCharge
  | .iso20 s => s.phase = .cableCheck ∨ s.phase = .preCharge

/-- The loop budget of the current phase: the generation's figure, or the deployment's own. The
DC safety phases keep theirs. -/
def loopTimeout (flow : Flow) (role : Role) (budgets : LoopBudgets) : Option Millis :=
  let (default, authorizing) : Option Millis × Bool :=
    match flow with
    | .iso2 s => (s.phase.loopTimeout role, s.phase = .authorized)
    | .iso20 s => (s.phase.loopTimeout role, s.phase = .authorized)
  default.map fun default =>
    let overridden :=
      if authorizing then budgets.authorization
      else if flow.isDcSafetyPhase then none
      else budgets.ongoing
    overridden.getD default

def phaseName : Flow → String
  | .iso2 s => s.phase.name
  | .iso20 s => s.phase.name

@[simp] theorem protocol_recordFailure (flow : Flow) :
    flow.recordFailure.protocol = flow.protocol := by
  cases flow <;> rfl

theorem protocol_of_resume {flow flow' : Flow} {t : Iso20.EnergyTransfer}
    (h : flow.resume t = .ok flow') : flow'.protocol = flow.protocol := by
  cases flow with
  | iso2 s => cases h
  | iso20 s =>
    cases h
    rfl

/-- What a -20 flow makes of a message: it is no request, it is refused, or the sequencer takes
the step. -/
theorem accept_iso20_cases (s : Iso20.Sequencer) (m : Message) :
    (Iso20.Request.of m = none ∧ (iso20 s).accept m = (.error .notARequest, iso20 s))
      ∨ (∃ r e, Iso20.Request.of m = some r
          ∧ (iso20 s).accept m = (.error (.sequence e), iso20 s))
      ∨ ∃ r p, Iso20.Request.of m = some r ∧ s.admits m.payloadType = true
          ∧ s.nextPhase r = some p
          ∧ (iso20 s).accept m
              = (.ok (), iso20 (s.advance r (Iso20.powerDeliveryOngoing m) p)) := by
  cases hof : Iso20.Request.of m with
  | none => exact .inl ⟨rfl, by simp only [accept, hof]⟩
  | some r =>
    right
    by_cases hadmits : s.admits m.payloadType = true
    · cases hnext : s.nextPhase r with
      | none =>
        refine .inl ⟨r, s.refusal r, rfl, ?_⟩
        simp only [accept, hof, hadmits, Iso20.Sequencer.acceptProcessing, hnext]
        rfl
      | some p =>
        refine .inr ⟨r, p, rfl, hadmits, hnext, ?_⟩
        simp only [accept, hof, hadmits, Iso20.Sequencer.acceptProcessing, hnext]
        rfl
    · refine .inl ⟨r, s.refusal r, rfl, ?_⟩
      simp only [accept, hof]
      rw [if_pos hadmits]

/-- What a -2 flow makes of a message. -/
theorem accept_iso2_cases (s : Iso2.Sequencer) (m : Message) :
    (Iso2.Request.of m = none ∧ (iso2 s).accept m = (.error .notARequest, iso2 s))
      ∨ (∃ r e, Iso2.Request.of m = some r ∧ (iso2 s).accept m = (.error (.sequence e), iso2 s))
      ∨ ∃ r p, Iso2.Request.of m = some r ∧ s.nextPhase r = some p
          ∧ (iso2 s).accept m = (.ok (), iso2 (s.advance r p)) := by
  cases hof : Iso2.Request.of m with
  | none => exact .inl ⟨rfl, by simp only [accept, hof]⟩
  | some r =>
    right
    cases hnext : s.nextPhase r with
    | none =>
      refine .inl ⟨r, s.refusal r, rfl, ?_⟩
      simp only [accept, hof, Iso2.Sequencer.accept, hnext]
    | some p =>
      refine .inr ⟨r, p, rfl, hnext, ?_⟩
      simp only [accept, hof, Iso2.Sequencer.accept, hnext]

/-- The request the flow reads out of a message, if it reads one. -/
def reads : Flow → Message → Bool
  | .iso2 _, m => (Iso2.Request.of m).isSome
  | .iso20 _, m => (Iso20.Request.of m).isSome

/-- **What a flow makes of a message.** It reads no request and stays, it refuses the request and
stays, or it accepts it and stays in its generation. -/
theorem accept_cases (flow : Flow) (m : Message) :
    (flow.reads m = false ∧ flow.accept m = (.error .notARequest, flow))
      ∨ (flow.reads m = true ∧ ∃ e, flow.accept m = (.error (.sequence e), flow))
      ∨ (flow.reads m = true ∧ ∃ flow', flow.accept m = (.ok (), flow')
          ∧ flow'.protocol = flow.protocol) := by
  cases flow with
  | iso2 s =>
    rcases accept_iso2_cases s m with ⟨hof, h⟩ | ⟨r, e, hof, h⟩ | ⟨r, p, hof, -, h⟩
    · exact .inl ⟨by simp [reads, hof], h⟩
    · exact .inr (.inl ⟨by simp [reads, hof], e, h⟩)
    · exact .inr (.inr ⟨by simp [reads, hof], _, h, rfl⟩)
  | iso20 s =>
    rcases accept_iso20_cases s m with ⟨hof, h⟩ | ⟨r, e, hof, h⟩ | ⟨r, p, hof, -, -, h⟩
    · exact .inl ⟨by simp [reads, hof], h⟩
    · exact .inr (.inl ⟨by simp [reads, hof], e, h⟩)
    · exact .inr (.inr ⟨by simp [reads, hof], _, h, rfl⟩)

theorem protocol_of_accept {flow flow' : Flow} {m : Message}
    (h : flow.accept m = (.ok (), flow')) : flow'.protocol = flow.protocol := by
  rcases flow.accept_cases m with ⟨-, h'⟩ | ⟨-, e, h'⟩ | ⟨-, f, h', hprotocol⟩
  · rw [h'] at h
    cases h
  · rw [h'] at h
    cases h
  · rw [h'] at h
    cases h
    exact hprotocol

/-- What is accepted is of the generation of the session. -/
theorem generation_of_accept {flow flow' : Flow} {m : Message}
    (h : flow.accept m = (.ok (), flow')) : m.generation = some flow.protocol := by
  cases flow with
  | iso2 s =>
    rcases accept_iso2_cases s m with ⟨-, h'⟩ | ⟨r, e, -, h'⟩ | ⟨r, p, hof, -, -⟩
    · rw [h'] at h
      cases h
    · rw [h'] at h
      cases h
    · cases m <;> first | rfl | cases hof
  | iso20 s =>
    rcases accept_iso20_cases s m with ⟨-, h'⟩ | ⟨r, e, -, h'⟩ | ⟨r, p, hof, -, -, -⟩
    · rw [h'] at h
      cases h
    · rw [h'] at h
      cases h
    · cases m <;> first | rfl | cases hof

/-- What is accepted has a header to put a session id in. -/
theorem setSessionId_of_accept {flow flow' : Flow} {m : Message}
    (h : flow.accept m = (.ok (), flow')) (id : SessionId) : (m.setSessionId id).1 = true := by
  cases flow with
  | iso2 s =>
    rcases accept_iso2_cases s m with ⟨-, h'⟩ | ⟨r, e, -, h'⟩ | ⟨r, p, hof, -, -⟩
    · rw [h'] at h
      cases h
    · rw [h'] at h
      cases h
    · unfold Iso2.Request.of at hof
      split at hof
      · rfl
      · cases hof
  | iso20 s =>
    rcases accept_iso20_cases s m with ⟨-, h'⟩ | ⟨r, e, -, h'⟩ | ⟨r, p, hof, -, -, -⟩
    · rw [h'] at h
      cases h
    · rw [h'] at h
      cases h
    · cases m with
      | appProtocolReq req | appProtocolRes res | iso2 doc => cases hof
      | iso20 doc | iso20Ac doc | iso20Dc doc | iso20Wpt doc | iso20Acdp doc | iso20AcDerIec doc
      | iso20AcDerSae doc =>
        cases doc with
        | request e header rest => rfl
        | response e header code rest => cases hof
        | other e rest => cases hof

/-- A -2 request is not the handshake's. -/
theorem name_ne_of_accept_iso2 {flow flow' : Flow} {m : Message}
    (h : flow.accept m = (.ok (), flow')) (hprotocol : flow.protocol = .iso2) :
    m.name ≠ "supportedAppProtocolReq" := by
  cases flow with
  | iso20 s => cases hprotocol
  | iso2 s =>
    rcases accept_iso2_cases s m with ⟨-, h'⟩ | ⟨r, e, -, h'⟩ | ⟨r, p, hof, -, -⟩
    · rw [h'] at h
      cases h
    · rw [h'] at h
      cases h
    · rw [Iso2.Request.name_of hof]
      cases r with
      | paymentServiceSelection option =>
        exact (by decide : "PaymentServiceSelectionReq" ≠ "supportedAppProtocolReq")
      | chargeParameterDiscovery mode =>
        exact (by decide : "ChargeParameterDiscoveryReq" ≠ "supportedAppProtocolReq")
      | powerDelivery progress => exact (by decide : "PowerDeliveryReq" ≠ "supportedAppProtocolReq")
      | sessionStop session => exact (by decide : "SessionStopReq" ≠ "supportedAppProtocolReq")
      | _ => decide

theorem protocol_of_new {p : Protocol} {security : Security} {flow : Flow}
    (h : new p security = some flow) : flow.protocol = p := by
  cases p with
  | din70121 => cases h
  | iso2 => cases h; rfl
  | iso20 => cases h; rfl

theorem accept_setSessionId (flow : Flow) (m : Message) (id : SessionId) :
    flow.accept (m.setSessionId id).2 = flow.accept m := by
  unfold accept
  rw [Iso2.Request.of_setSessionId, Iso20.Request.of_setSessionId,
    Iso20.powerDeliveryOngoing_setSessionId, (m.sameButHeader_setSessionId id).payloadType]

/-- A refusal leaves the flow as it was. -/
theorem accept_of_error {flow : Flow} {m : Message} {e : FlowError}
    (h : (flow.accept m).1 = .error e) : (flow.accept m).2 = flow := by
  rcases flow.accept_cases m with ⟨-, h'⟩ | ⟨-, e', h'⟩ | ⟨-, flow', h', -⟩
  · rw [h']
  · rw [h']
  · rw [h'] at h
    cases h

/-- **The dry run says what the run will**, down to the refusal. -/
theorem permits_eq_accept (flow : Flow) (m : Message) : flow.permits m = (flow.accept m).1 := by
  cases flow with
  | iso2 s =>
    cases hof : Iso2.Request.of m with
    | none => simp only [permits, accept, hof]
    | some r =>
      -- either asks the table, and the refusal is the one of `Sequencer.refusal`
      cases hnext : s.nextPhase r with
      | none => simp [permits, accept, hof, Iso2.Sequencer.permits, Iso2.Sequencer.accept, hnext]
      | some p => simp [permits, accept, hof, Iso2.Sequencer.permits, Iso2.Sequencer.accept, hnext]
  | iso20 s =>
    cases hof : Iso20.Request.of m with
    | none => simp only [permits, accept, hof]
    | some r =>
      -- the message set is asked about in front of the table by the one, beside it by the other
      cases hadmits : s.admits m.payloadType with
      | false => simp [permits, accept, hof, hadmits]
      | true =>
        cases hnext : s.nextPhase r with
        | none =>
          simp [permits, accept, hof, hadmits, Iso20.Sequencer.permits,
            Iso20.Sequencer.acceptProcessing, hnext]
        | some p =>
          simp [permits, accept, hof, hadmits, Iso20.Sequencer.permits,
            Iso20.Sequencer.acceptProcessing, hnext]

theorem exists_accept_of_permits {flow : Flow} {m : Message} (h : flow.permits m = .ok ()) :
    ∃ flow', flow.accept m = (.ok (), flow') :=
  ⟨(flow.accept m).2, Prod.ext ((flow.permits_eq_accept m).symm.trans h) rfl⟩

/-- Nothing has been set up yet. -/
def AtStart : Flow → Prop
  | .iso2 s => s.phase = .start
  | .iso20 s => s.phase = .start

theorem atStart_of_new {p : Protocol} {security : Security} {flow : Flow}
    (h : new p security = some flow) : flow.AtStart := by
  cases p with
  | din70121 => cases h
  | iso2 => cases h; rfl
  | iso20 => cases h; rfl

/-- The first request is a `SessionSetupReq`. -/
theorem name_of_accept_atStart {flow flow' : Flow} {m : Message} (hstart : flow.AtStart)
    (h : flow.accept m = (.ok (), flow')) : m.name = "SessionSetupReq" := by
  cases flow with
  | iso2 s =>
    have hstart : s.phase = .start := hstart
    rcases accept_iso2_cases s m with ⟨-, h'⟩ | ⟨r, e, -, h'⟩ | ⟨r, p, hof, hnext, -⟩
    · rw [h'] at h
      cases h
    · rw [h'] at h
      cases h
    -- from the start there is one arrow, and it is the setup
    · have hr : r = .sessionSetup := by
        cases Iso2.Sequencer.arrow_of_nextPhase hnext with
        | forward hf hforward => cases hforward <;> simp_all
        | terminate hp => exact absurd (.inl hstart) hp
        | pause hp hl => exact absurd (.inl hstart) hp
      rw [Iso2.Request.name_of hof, hr]
      rfl
  | iso20 s =>
    have hstart : s.phase = .start := hstart
    rcases accept_iso20_cases s m with ⟨-, h'⟩ | ⟨r, e, -, h'⟩ | ⟨r, p, hof, -, hnext, -⟩
    · rw [h'] at h
      cases h
    · rw [h'] at h
      cases h
    -- and so it is in the newer generation
    · have hr : r = .sessionSetup := by
        cases Iso20.Sequencer.arrow_of_nextPhase hnext with
        | forward hf hforward => cases hforward <;> simp_all
        | renegotiateService hf hp => simp [Iso20.Phase.Serving, hstart] at hp
        | terminate hp => exact absurd (.inl hstart) hp
        | pause hp hl => exact absurd (.inl hstart) hp
      rw [Iso20.Request.name_of hof (.inl hr), hr]
      rfl

end Flow

end Iso15118.Session
