import Iso15118.Session.Connection
import Iso15118.Session.Flow
import Iso15118.Lib.Run

/-!
# The vehicle's session engine

`evcc.rs`: the other side of `Secc/Basic`. The vehicle drives. It puts one request on the wire at a
time, and what comes back either answers that request or ends the session.

As on the station's side, a session is what its application makes of it, call by call: **`Call`**,
**`Evcc.call`**.
-/

namespace Iso15118

open Iso15118.Lib Iso15118.Session
open Iso15118.Message (Codec Outcome)

/-! ## The data model

The fields of the source that a call reads or writes, under its own names. -/

/-- `EvccConfig`. -/
structure EvccConfig where
  /-- Most preferred first. -/
  protocols : Protocols
  security : Security
  maxPayloadLen : Nat
  maxPendingFrames : Nat
  setupTimeout : Millis
  /-- Overrides the figure of the generation's own table. -/
  messageTimeout : Option Millis
  loopBudgets : LoopBudgets
  iso20Sets : List Iso20Set
  /-- The paused session to join again. -/
  rejoin : Option SessionId
  deriving DecidableEq

/-- `EvccConfig::default`, in a build with every message set. -/
def EvccConfig.default : EvccConfig where
  protocols := Protocols.iso
  security := .none
  maxPayloadLen := maxExiPayloadLen
  maxPendingFrames := Session.maxPendingFrames
  setupTimeout := Timing.Iso2.evccCommunicationSetupTimeout
  messageTimeout := none
  loopBudgets := ⟨none, none⟩
  iso20Sets := AppProtocol.defaultIso20Sets
  rejoin := none

/-- Why a session ended. -/
inductive Evcc.Close where
  | normal
  | paused
  | timeout (timer : Timer)
  | noCommonProtocol
  | fatal
  deriving DecidableEq, Repr

/-- Something the application has to know about. -/
inductive Evcc.Event where
  | protocolAgreed (protocol : Protocol)
  | response (message : Message)
  | failed
  | closed (why : Close)
  deriving DecidableEq, Repr

inductive EvccError where
  | connection (error : ConnectionError)
  | flow (error : FlowError)
  | notAResponse (name : String)
  | notARequest (name : String)
  | beforeHandshake (name : String)
  | awaitingResponse (outstanding got : String)
  | unknownSchemaId (schemaId : UInt8)
  | nothingToOffer (configured : Protocols)
  | alreadyStarted
  | unexpectedResponse (expected : Option String) (got : String)
  | noSessionAssigned
  | wrongSession (expected got : SessionId)
  | closed
  deriving DecidableEq

/-- The vehicle's half of a V2G session. -/
structure Evcc where
  config : EvccConfig
  conn : Connection
  timers : Timers
  flow : Option Flow
  events : List Evcc.Event
  sessionId : SessionId
  /-- What was offered, which the station's answer is looked up in. -/
  offer : Option AppProtocol.Req
  iso20Set : Option Iso20Set
  /-- The request that is waiting for an answer, by element name. -/
  outstanding : Option String
  /-- `SessionSetupRes` has assigned the session id. -/
  established : Bool
  phase : Option String
  answeredAt : Option Instant
  closed : Bool

namespace Evcc

/-- `Evcc::new`. -/
def new (config : EvccConfig) : Evcc where
  config := config
  conn := .withLimits config.maxPayloadLen config.maxPendingFrames
  timers := .new
  flow := none
  events := []
  sessionId := config.rejoin.getD SessionId.none
  offer := none
  iso20Set := none
  outstanding := none
  established := false
  phase := none
  answeredAt := none
  closed := false

/-! ## The ways a session ends

Closing stops the timers and queues the event, once; a fatal end drops the outstanding request
too. -/

/-- `Evcc::close`. -/
def close (s : Evcc) (why : Close) : Evcc :=
  if s.closed then s
  else
    { s with
      closed := true
      timers := s.timers.disarmAll
      events := s.events ++ [.closed why] }

/-- `Evcc::close_fatal`: nothing is coming to answer the outstanding request, which goes too. -/
def closeFatal (s : Evcc) : Evcc :=
  if s.closed then s
  else { s with conn := s.conn.resetInput, outstanding := none }.close .fatal

/-! ## Asking

A request is checked, stamped and encoded before anything changes, and what is outstanding is
remembered with its deadline. -/

/-- The generations `Evcc::start` advertises: those this build has a flow for, and -20 only with a
message set to offer. -/
def advertised (config : EvccConfig) : Protocols :=
  let speakable := config.protocols.retain Flow.supports
  if config.iso20Sets.isEmpty then speakable.remove .iso20 else speakable

/-- `Evcc::start`. -/
def start (codec : Codec) (s : Evcc) (now : Instant) : Except EvccError Unit × Evcc :=
  if s.outstanding.isSome ∨ s.flow.isSome ∨ s.closed then (.error .alreadyStarted, s)
  else
    let advertised := advertised s.config
    if advertised.entries.isEmpty then (.error (.nothingToOffer s.config.protocols), s)
    else
      let req := AppProtocol.Req.advertisingWith advertised s.config.iso20Sets
      match s.conn.send codec (.appProtocolReq req) with
      | (.error e, conn) => (.error (.connection e), { s with conn := conn })
      | (.ok (), conn) =>
          (.ok (),
            { s with
              conn := conn
              offer := some req
              timers :=
                (s.timers.arm .communicationSetup now s.config.setupTimeout).arm .message now
                  (s.config.messageTimeout.getD Timing.Iso2.msgTimeoutDefault)
              outstanding := some "supportedAppProtocolReq" })

/-- `response_timeout`. -/
def responseTimeout (request : Message) : Millis :=
  match Iso2.Request.of request with
  | some r => r.responseTimeout
  | none =>
      match Iso20.Request.of request with
      | some r => r.responseTimeout
      | none => Timing.Iso2.msgTimeoutDefault

/-- `Evcc::enter_phase`: the loop budget runs from the first request of a phase. -/
def enterPhase (s : Evcc) (now : Instant) : Evcc :=
  match s.flow with
  | none => s
  | some flow =>
      if s.phase = some flow.phaseName then s
      else
        { s with
          phase := some flow.phaseName
          timers :=
            match flow.loopTimeout .evcc s.config.loopBudgets with
            | some budget => s.timers.arm .ongoing now budget
            | none => s.timers.disarm .ongoing }

/-- The end of `Evcc::request`: the request is on the wire. -/
def await (s : Evcc) (now : Instant) (request : Message) : Evcc :=
  { s with
    timers :=
      s.timers.arm .message now (s.config.messageTimeout.getD (responseTimeout request))
    outstanding := some request.name }

/-- `Evcc::request`. -/
def request (codec : Codec) (s : Evcc) (now : Instant) (request : Message) :
    Except EvccError Unit × Evcc :=
  if s.closed then (.error .closed, s)
  else if ¬ request.isRequest then (.error (.notARequest request.name), s)
  else
    match s.outstanding, s.flow with
    | some outstanding, _ => (.error (.awaitingResponse outstanding request.name), s)
    | none, none => (.error (.beforeHandshake request.name), s)
    | none, some flow =>
        match flow.permits request with
        | .error e => (.error (.flow e), s)
        | .ok () =>
            let request := (request.setSessionId s.sessionId).2
            match s.conn.send codec request with
            | (.error e, conn) => (.error (.connection e), { s with conn := conn })
            | (.ok (), conn) =>
                -- From here on the session moves, and it moves all at once.
                let (answer, flow') := flow.accept request
                let s := { s with conn := conn, flow := some flow' }
                match answer with
                | .error e => (.error (.flow e), s)
                | .ok () => (.ok (), (s.enterPhase now).await now request)

/-! ## Reading

A response goes through the checks in the order of the source, and surfaces at the end of them. -/

def emit (s : Evcc) (event : Event) : Evcc := { s with events := s.events ++ [event] }

/-- The protocol and message set the offer has under `schemaId`. -/
def chosen (offer : Option AppProtocol.Req) (schemaId : UInt8) :
    Option (Protocol × Option Iso20Set) :=
  (offer.bind fun req => req.appProtocols.find? (·.schemaId = schemaId)).bind fun e =>
    e.protocol.map fun protocol => (protocol, e.iso20Set)

/-- The answer to the handshake, inside `Evcc::dispatch`. -/
def handshake (s : Evcc) (res : AppProtocol.Res) : Except EvccError Unit × Evcc :=
  match res.schemaId.filter fun _ => res.responseCode.isOk with
  | none => (.ok (), s.close .noCommonProtocol)
  | some schemaId =>
      match chosen s.offer schemaId with
      | none => (.error (.unknownSchemaId schemaId), s)
      | some (protocol, iso20Set) =>
          let s := { s with iso20Set := iso20Set }
          match Flow.new protocol s.config.security with
          | none => (.ok (), s.close .noCommonProtocol)
          | some flow =>
              (.ok (),
                { s with conn := s.conn.setProtocol protocol, flow := some flow }.emit
                  (.protocolAgreed protocol))

/-- The session id of a response, inside `Evcc::dispatch`: the first one is taken over, every
later one is compared with it. -/
def checkSessionId (s : Evcc) (message : Message) : Except EvccError Evcc :=
  match message.sessionId with
  | some id =>
      if ¬ s.established then
        -- A station that answers with the all-zero id has assigned nothing.
        if id.isNone then .error .noSessionAssigned
        else
          .ok { s with
            sessionId := id
            established := true
            timers := s.timers.disarm .communicationSetup }
      else if id ≠ s.sessionId then .error (.wrongSession s.sessionId id)
      else .ok s
  | none => .ok s

/-- How the flow says the session has ended, inside `Evcc::dispatch`. -/
def ending (flow : Option Flow) : Option Close :=
  flow.bind fun flow =>
    if flow.isPaused then some .paused
    else if flow.isFinished then some .normal
    else none

/-- The end of `Evcc::dispatch`: the response is surfaced, and the session ends with it when the
flow has. -/
def surface (s : Evcc) (message : Message) : Evcc :=
  let failed := message.outcome.any Outcome.isFailure
  -- The flow hears of a failure before the application can send anything else.
  let flow := if failed then s.flow.map Flow.recordFailure else s.flow
  let s := { s with flow := flow }.emit (.response message)
  match ending flow with
  | some why => s.close why
  | none => if failed then s.emit .failed else s

/-- `Evcc::dispatch`. -/
def dispatch (s : Evcc) (now : Instant) (message : Message) : Except EvccError Unit × Evcc :=
  if message.isRequest then (.error (.notAResponse message.name), s)
  else
    match s.outstanding with
    | none => (.error (.unexpectedResponse none message.name), s)
    | some expected =>
        if ¬ message.answers expected then
          (.error (.unexpectedResponse (some expected) message.name), s)
        else
          let s :=
            { s with
              timers := s.timers.disarm .message
              outstanding := none
              answeredAt := some now }
          match message with
          | .appProtocolRes res => s.handshake res
          | message =>
              match s.checkSessionId message with
              | .error e => (.error e, s)
              | .ok s => (.ok (), s.surface message)

/-! ### Nothing but the loop takes a frame

The loop ends because it takes a frame in every turn, and nothing it calls puts one back. -/

@[simp] theorem close_conn (s : Evcc) (why : Close) : (s.close why).conn = s.conn := by
  unfold close
  split <;> rfl

theorem frames_handshake (s : Evcc) (res : AppProtocol.Res) :
    (s.handshake res).2.conn.frames = s.conn.frames := by
  unfold handshake
  split
  · exact congrArg Connection.frames (close_conn ..)
  · split
    · rfl
    · dsimp only
      split
      · exact congrArg Connection.frames (close_conn ..)
      · rfl

theorem checkSessionId_conn {s s' : Evcc} {m : Message} (h : s.checkSessionId m = .ok s') :
    s'.conn = s.conn := by
  unfold checkSessionId at h
  split at h
  · split at h
    · split at h <;> cases h
      rfl
    · split at h <;> cases h
      rfl
  · cases h
    rfl

@[simp] theorem surface_conn (s : Evcc) (m : Message) : (s.surface m).conn = s.conn := by
  unfold surface
  dsimp only
  split
  · rw [close_conn]
    rfl
  · split <;> rfl

theorem frames_dispatch (s : Evcc) (now : Instant) (m : Message) :
    (s.dispatch now m).2.conn.frames = s.conn.frames := by
  unfold dispatch
  split
  · rfl
  · split
    · rfl
    · split
      · rfl
      · dsimp only
        split
        · exact frames_handshake _ _
        · split
          · rfl
          · next h => rw [surface_conn, checkSessionId_conn h]

/-! ### The loop over the frames, and the calls

Frames are taken one by one until none is complete, one is faulty, or the session is over. -/

-- The equations of the matches are for `decreasing_by`.
set_option linter.unusedVariables false in
/-- `Evcc::drain`: decodes and dispatches every frame, up to a fault or the end of the session. -/
def drain (codec : Codec) (s : Evcc) (now : Instant) : Except EvccError Unit × Evcc :=
  match hnext : s.conn.nextMessage codec with
  | (.error e, conn) => (.error (.connection e), { s with conn := conn })
  | (.ok none, conn) => (.ok (), { s with conn := conn })
  | (.ok (some message), conn) =>
      match hdispatch : dispatch { s with conn := conn } now message with
      | (.error e, s') => (.error e, s')
      | (.ok (), s') => if s'.closed then (.ok (), s') else drain codec s' now
  termination_by s.conn.frames.length
  decreasing_by
    have hframes := frames_dispatch { s with conn := conn } now message
    rw [hdispatch] at hframes
    have hlen := Connection.length_frames_nextMessage (m := message) (by rw [hnext])
    rw [hnext] at hlen
    rw [hframes]
    exact hlen

/-- A fault in what was read ends the session, whatever the caller makes of the error. -/
def closeOnError (outcome : Except EvccError Unit × Evcc) : Except EvccError Unit × Evcc :=
  match outcome with
  | (.error e, s) => (.error e, s.closeFatal)
  | (.ok (), s) => (.ok (), s)

/-- `Evcc::handle_input`. -/
def handleInput (codec : Codec) (s : Evcc) (now : Instant) (data : List UInt8) :
    Except EvccError Unit × Evcc :=
  if s.closed then (.ok (), s)
  else
    match s.conn.receive data with
    | (.error e, conn) => closeOnError (.error (.connection e), { s with conn := conn })
    | (.ok (), conn) => closeOnError (drain codec { s with conn := conn } now)

/-- `Evcc::resume`. -/
def resume (s : Evcc) (transfer : Iso20.EnergyTransfer) : Except ResumeError Unit × Evcc :=
  match s.flow with
  | none => (.error .notNegotiated, s)
  | some flow =>
      match flow.resume transfer with
      | .error e => (.error e, s)
      | .ok flow' => (.ok (), { s with flow := some flow' })

/-! ### The clock

What is due is handled timer by timer, in the order of the source. -/

@[simp] theorem running_close_le (s : Evcc) (why : Close) :
    (s.close why).timers.running ≤ s.timers.running := by
  unfold close
  split
  · exact Nat.le_refl _
  · exact Nat.zero_le _

-- The equations of the matches are for `decreasing_by`.
set_option linter.unusedVariables false in
/-- `Evcc::handle_timeout`: every timer ends the session. -/
def handleTimeout (s : Evcc) (now : Instant) : Evcc :=
  match hexpired : s.timers.expired now with
  | (none, _) => s
  | (some timer, timers) => handleTimeout ({ s with timers := timers }.close (.timeout timer)) now
  termination_by s.timers.running
  decreasing_by
    refine Nat.lt_of_le_of_lt (running_close_le _ _) ?_
    rcases s.timers.expired_cases now with ⟨h, -⟩ | ⟨timer', d, h, hd, -⟩
    · rw [h] at hexpired
      cases hexpired
    · rw [h] at hexpired
      cases hexpired
      exact Timers.running_disarm_lt hd

/-- `Evcc::poll_event`. -/
def pollEvent (s : Evcc) : Option Event × Evcc :=
  (s.events.head?, { s with events := s.events.tail })

/-- `Evcc::take_transmit`. -/
def takeTransmit (s : Evcc) : List UInt8 × Evcc :=
  (s.conn.takeTransmit.1, { s with conn := s.conn.takeTransmit.2 })

/-! ## A session as its application drives it

A run is a list of calls. What they put out is kept in one record, requests and events in the
order they came about. -/

inductive Call where
  | start (now : Instant)
  | request (now : Instant) (request : Message)
  | handleInput (now : Instant) (data : List UInt8)
  | resume (transfer : Iso20.EnergyTransfer)
  | handleTimeout (now : Instant)
  | pollEvent
  | takeTransmit
  deriving DecidableEq

/-- The vehicle after a call. -/
def call (codec : Codec) (s : Evcc) : Call → Evcc
  | .start now => (s.start codec now).2
  | .request now request => (s.request codec now request).2
  | .handleInput now data => (s.handleInput codec now data).2
  | .resume transfer => (s.resume transfer).2
  | .handleTimeout now => s.handleTimeout now
  | .pollEvent => s.pollEvent.2
  | .takeTransmit => s.takeTransmit.2

/-- The events a call queues. -/
def emits (codec : Codec) (s : Evcc) (c : Call) : List Event :=
  (s.call codec c).events.drop s.events.length

/-- The request a call puts on the transmit queue, as it goes out. -/
def sends (codec : Codec) (s : Evcc) : Call → List Message
  | .start now =>
      match (s.start codec now).1 with
      | .ok () => [.appProtocolReq (.advertisingWith (advertised s.config) s.config.iso20Sets)]
      | .error _ => []
  | .request now request =>
      match (s.request codec now request).1 with
      | .ok () => [(request.setSessionId s.sessionId).2]
      | .error _ => []
  | _ => []

/-- What a call puts on record. -/
inductive Act where
  | sent (request : Message)
  | event (event : Event)
  deriving DecidableEq

/-- A call that sends queues no event, and one that queues an event sends nothing. -/
def logs (codec : Codec) (s : Evcc) (c : Call) : List Act :=
  (s.sends codec c).map .sent ++ (s.emits codec c).map .event

/-- The vehicle a run of `calls` leaves behind. -/
def after (codec : Codec) (config : EvccConfig) (calls : List Call) : Evcc :=
  run (call codec) (.new config) calls

/-- The requests sent and the events queued in a run, in order. -/
def history (codec : Codec) (config : EvccConfig) (calls : List Call) : List Act :=
  outputs (call codec) (logs codec) (.new config) calls

@[simp] theorem after_nil (codec : Codec) (config : EvccConfig) :
    after codec config [] = .new config := rfl

@[simp] theorem history_nil (codec : Codec) (config : EvccConfig) : history codec config [] = [] :=
  rfl

@[simp] theorem after_concat (codec : Codec) (config : EvccConfig) (calls : List Call) (c : Call) :
    after codec config (calls ++ [c]) = (after codec config calls).call codec c := run_concat ..

@[simp] theorem history_concat (codec : Codec) (config : EvccConfig) (calls : List Call)
    (c : Call) : history codec config (calls ++ [c])
      = history codec config calls ++ (after codec config calls).logs codec c := outputs_concat ..

/-! ## A vehicle for the vectors

The vehicle of the recorded exchanges, and its calls. -/

/-- Speaks -2, and names the session of the vectors. -/
def goldenVehicle : EvccConfig :=
  { EvccConfig.default with
    protocols := ⟨[.iso2], by decide⟩
    rejoin := some Message.Golden.sessionId }

/-- The handshake, and `SessionSetupReq` is on the wire. -/
def goldenSetUp : List Call :=
  [.start (.fromMillis 0),
   .handleInput (.fromMillis 1)
     (Message.Golden.frame .exiEncodedV2gMessage [0x80, 0x40, 0x00, 0x40]),
   .request (.fromMillis 2) Message.Golden.sessionSetupRequest]

/-- Speaks -20 for AC, and names the session of the vectors. -/
def goldenVehicleIso20 : EvccConfig :=
  { EvccConfig.default with
    protocols := ⟨[.iso20], by decide⟩
    iso20Sets := [.ac]
    rejoin := some Message.Golden.sessionId }

/-- The handshake and `SessionSetup` of -20. -/
def goldenSetUpIso20 : List Call :=
  [.start (.fromMillis 0),
   .handleInput (.fromMillis 1)
     (Message.Golden.frame .exiEncodedV2gMessage [0x80, 0x40, 0x00, 0x40]),
   .request (.fromMillis 2) Message.Golden.sessionSetupRequestIso20,
   .handleInput (.fromMillis 3)
     (Message.Golden.frame .part20Main Message.Golden.sessionSetupResIso20)]

/-- What comes back. -/
def goldenAnswer (payload : List UInt8) : Call :=
  .handleInput (.fromMillis 3) (Message.Golden.frame .exiEncodedV2gMessage payload)

end Evcc

end Iso15118
