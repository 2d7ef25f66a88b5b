import Iso15118.Session.Connection
import Iso15118.Session.Flow
import Iso15118.Lib.Run

/-!
# The charging station's session engine

`secc.rs`: bytes and clock readings in, events and bytes out. The vehicle asks, the station
answers, one exchange at a time: a request that has been surfaced stays outstanding until
`Secc.respond` has queued its answer, and nothing behind it is read before that.

The engine does no input or output of its own. A session is what its application makes of it,
call by call: **`Call`**, **`Secc.call`**.
-/

namespace Iso15118

open Iso15118.Lib Iso15118.Session
open Iso15118.Message (Codec Outcome)

/-! ## The data model

The fields of the source that a call reads or writes, under its own names. -/

/-- `SeccConfig`. -/
structure SeccConfig where
  protocols : Protocols
  sessionId : SessionId
  security : Security
  maxPayloadLen : Nat
  maxPendingFrames : Nat
  sequenceTimeout : Millis
  loopBudgets : LoopBudgets
  iso20Sets : List Iso20Set
  setupTimeout : Millis
  deriving DecidableEq

/-- `SeccConfig::default`, in a build with every message set. -/
def SeccConfig.default : SeccConfig where
  protocols := Protocols.iso
  sessionId := SessionId.none
  security := .none
  maxPayloadLen := maxExiPayloadLen
  maxPendingFrames := Session.maxPendingFrames
  sequenceTimeout := Timing.Iso2.seccSequenceTimeout
  loopBudgets := ⟨none, none⟩
  iso20Sets := Iso20Set.all
  setupTimeout := Timing.Iso2.seccCommunicationSetupPerformanceTime

/-- Why a request was refused. -/
inductive Secc.Refusal where
  | sequence (error : SequenceError)
  | unknownSession
  deriving DecidableEq, Repr

/-- Why a session ended. -/
inductive Secc.Close where
  | normal
  | paused
  | timeout (timer : Timer)
  | refused
  | noCommonProtocol
  | fatal
  deriving DecidableEq, Repr

/-- Something the application has to know about, or act on. -/
inductive Secc.Event where
  | protocolAgreed (protocol : Protocol)
  | request (message : Message)
  | refused (message : Message) (responseCode : UInt8) (reason : Refusal)
  | overdue (message : Message) (responseCode : UInt8) (phase : String)
  | closed (why : Close)
  deriving DecidableEq, Repr

/-- The request `Secc.respond` is owed an answer for. -/
structure Secc.Outstanding where
  name : String
  /-- It was refused or is overdue, and its answer may be of any type. -/
  refused : Bool
  due : Instant
  deriving DecidableEq, Repr

inductive SeccError where
  | connection (error : ConnectionError)
  | notARequest (name : String)
  | notAResponse (name : String)
  | beforeHandshake (name : String)
  | handshakeRepeated
  | nothingToAnswer (name : String)
  | noSessionId
  | wrongResponse (expected got : String)
  deriving DecidableEq, Repr

/-- The charging station's half of a V2G session. -/
structure Secc where
  config : SeccConfig
  conn : Connection
  timers : Timers
  flow : Option Flow
  iso20Set : Option Iso20Set
  events : List Secc.Event
  established : Bool
  outstanding : Option Secc.Outstanding
  phase : Option String
  overdue : Option String
  closed : Bool

namespace Secc

/-! ## Response codes and budgets

The codes that the station refuses with, as numbers of the negotiated generation. -/

/-- `FAILED_UnknownSession` in the negotiated generation. -/
def unknownSessionCode : Option Protocol → UInt8
  | some .iso2 => Message.Iso2.ResponseCode.failedUnknownSession.asU8
  | some .iso20 => Message.Iso20.ResponseCode.failedUnknownSession.asU8
  | _ => 255

/-- Plain `FAILED` in the negotiated generation. -/
def failedCode : Option Protocol → UInt8
  | some .iso2 => Message.Iso2.ResponseCode.failed.asU8
  | some .iso20 => Message.Iso20.ResponseCode.failed.asU8
  | _ => 255

/-- How long the station has to answer `request`. -/
def performanceTime (request : Message) : Millis :=
  match Iso2.Request.of request with
  | some r => r.performanceTime
  | none =>
      match Iso20.Request.of request with
      | some r => r.performanceTime
      | none => Timing.Iso2.seccMsgPerformanceDefault

/-! ## The engine

A station begins without a connection; the setup timer starts once it has one. -/

/-- `Secc::new`. -/
def new (config : SeccConfig) : Secc where
  config := config
  conn := .withLimits config.maxPayloadLen config.maxPendingFrames
  timers := .new
  flow := none
  iso20Set := none
  events := []
  established := false
  outstanding := none
  phase := none
  overdue := none
  closed := false

/-- `Secc::opened`: the transport is up, and the setup timer starts. -/
def opened (s : Secc) (now : Instant) : Secc :=
  { s with timers := s.timers.arm .communicationSetup now s.config.setupTimeout }

/-! ## The ways a session ends

Three of them, which differ in what they leave behind: the request still to be answered, and the
input still to be read. -/

/-- `Secc::close`. -/
def close (s : Secc) (why : Close) : Secc :=
  if s.closed then s
  else
    { s with
      closed := true
      timers := s.timers.disarmAll
      events := s.events ++ [.closed why] }

/-- `Secc::close_fatal`: nothing is left to answer, so the outstanding request and the input
buffers go too. -/
def closeFatal (s : Secc) : Secc :=
  if s.closed then s
  else
    { s with
      closed := true
      timers := s.timers.disarmAll
      conn := s.conn.resetInput
      outstanding := none
      events := s.events ++ [.closed .fatal] }

/-- `Secc::close_after_refusal`: the refusal still has to be answered. -/
def closeAfterRefusal (s : Secc) : Secc :=
  if s.closed then s
  else
    { s with
      closed := true
      timers := s.timers.disarmAll
      events := s.events ++ [.closed .refused] }

/-! ## Reading

A message goes through the checks in the order of the source, and either is surfaced, refused or
a fault. -/

/-- `Secc::carries_the_session_id`. The all-zero id is nobody's. -/
def carriesTheSessionId (s : Secc) (message : Message) : Bool :=
  !s.config.sessionId.isNone && decide (message.sessionId = some s.config.sessionId)

/-- `Secc::enter_phase`: a new phase starts its loop budget, a repeat leaves it running. -/
def enterPhase (s : Secc) (now : Instant) : Secc :=
  match s.flow with
  | none => s
  | some flow =>
      if s.phase = some flow.phaseName then s
      else
        { s with
          phase := some flow.phaseName
          timers :=
            match flow.loopTimeout .secc s.config.loopBudgets with
            | some budget => s.timers.arm .ongoing now budget
            | none => s.timers.disarm .ongoing }

/-- The request `message` is outstanding from `now` on. -/
def await (s : Secc) (now : Instant) (message : Message) (refused : Bool) : Secc :=
  { s with
    outstanding := some ⟨message.name, refused, now.saturatingAdd (performanceTime message)⟩ }

def emit (s : Secc) (event : Event) : Secc := { s with events := s.events ++ [event] }

/-- The handshake, inside `Secc::dispatch`: the vehicle's first choice among the protocols this
build can speak, or none. -/
def handshake (codec : Codec) (s : Secc) (req : AppProtocol.Req) : Except SeccError Unit × Secc :=
  if s.flow.isSome then (.error .handshakeRepeated, s)
  else
    let s := { s with timers := s.timers.disarm .communicationSetup }
    let speakable := s.config.protocols.retain Flow.supports
    let agreed := (req.negotiateWith speakable s.config.iso20Sets).bind fun a =>
      (Flow.new a.protocol s.config.security).map fun flow => (a, flow)
    match agreed with
    | none =>
        match s.conn.send codec (.appProtocolRes .reject) with
        | (.error e, conn) => (.error (.connection e), { s with conn := conn })
        | (.ok (), conn) => (.ok (), { s with conn := conn }.close .noCommonProtocol)
    | some (a, flow) =>
        match s.conn.send codec (.appProtocolRes (.accept a)) with
        | (.error e, conn) => (.error (.connection e), { s with conn := conn })
        | (.ok (), conn) =>
            (.ok (),
              { s with
                conn := conn.setProtocol a.protocol
                iso20Set := a.iso20Set
                flow := some flow }.emit (.protocolAgreed a.protocol))

/-- A request the flow refuses, inside `Secc::dispatch`. One refused because the station itself
ran out of time is not out of sequence, and the event says so. -/
def refuse (s : Secc) (now : Instant) (message : Message) (e : SequenceError) : Secc :=
  let s := s.await now message true
  match s.overdue with
  | some phase =>
      ({ s with overdue := none }.emit
        (.overdue message (failedCode s.conn.protocol) phase)).closeAfterRefusal
  | none => (s.emit (.refused message e.responseCode (.sequence e))).closeAfterRefusal

/-- `Secc::dispatch`. -/
def dispatch (codec : Codec) (s : Secc) (now : Instant) (message : Message) :
    Except SeccError Unit × Secc :=
  -- The vehicle just spoke, so it is not the one that has gone quiet.
  let s := { s with timers := s.timers.arm .sequence now s.config.sequenceTimeout }
  match message with
  | .appProtocolReq req => s.handshake codec req
  | message =>
      if ¬ message.isRequest then (.error (.notARequest message.name), s)
      else if s.established ∧ ¬ s.carriesTheSessionId message then
        let event := .refused message (unknownSessionCode s.conn.protocol) .unknownSession
        (.ok (), ((s.await now message true).emit event).closeAfterRefusal)
      else
        match s.flow with
        | none => (.error (.beforeHandshake message.name), s)
        | some flow =>
            let (answer, flow') := flow.accept message
            let s := { s with flow := some flow' }
            match answer with
            | .ok () =>
                let s := { s with established := s.established || message.name = "SessionSetupReq" }
                (.ok (), ((s.enterPhase now).await now message false).emit (.request message))
            | .error (.sequence e) => (.ok (), s.refuse now message e)
            | .error .notARequest => (.error (.notARequest message.name), s)

/-! ### Nothing but the pump takes a frame

The loop ends because it takes a frame in every turn, and nothing it calls puts one back. -/

@[simp] theorem close_conn (s : Secc) (why : Close) : (s.close why).conn = s.conn := by
  unfold close
  split <;> rfl

@[simp] theorem closeAfterRefusal_conn (s : Secc) : s.closeAfterRefusal.conn = s.conn := by
  unfold closeAfterRefusal
  split <;> rfl

@[simp] theorem enterPhase_conn (s : Secc) (now : Instant) : (s.enterPhase now).conn = s.conn := by
  unfold enterPhase
  split
  · rfl
  · split <;> rfl

@[simp] theorem refuse_conn (s : Secc) (now : Instant) (m : Message) (e : SequenceError) :
    (s.refuse now m e).conn = s.conn := by
  unfold refuse
  dsimp only
  split <;> simp [emit, await]

theorem frames_send (codec : Codec) (c : Connection) (m : Message) :
    (c.send codec m).2.frames = c.frames := by
  rcases c.send_cases codec m with ⟨e, h⟩ | ⟨frame, -, h⟩ <;> rw [h]

theorem frames_handshake (codec : Codec) (s : Secc) (req : AppProtocol.Req) :
    (s.handshake codec req).2.conn.frames = s.conn.frames := by
  unfold handshake
  split
  · rfl
  · simp only
    split
    · have hsend := frames_send codec s.conn (.appProtocolRes .reject)
      split
      · next h => rw [h] at hsend; exact hsend
      · next h => rw [h] at hsend; simpa using hsend
    · next a flow _ =>
      have hsend := frames_send codec s.conn (.appProtocolRes (.accept a))
      split
      · next h => rw [h] at hsend; exact hsend
      · next h => rw [h] at hsend; exact hsend

theorem frames_dispatch (codec : Codec) (s : Secc) (now : Instant) (m : Message) :
    (s.dispatch codec now m).2.conn.frames = s.conn.frames := by
  unfold dispatch
  simp only
  split
  · exact frames_handshake codec _ _
  · split
    · rfl
    · split
      · simp [emit, await]
      · split
        · rfl
        · split
          · simp [emit, await]
          · simp
          · rfl

/-! ### The loop over the frames, and the calls

Frames are taken until one needs answering, none is complete, one is faulty, or the session is
over. -/

-- The equations of the matches are for `decreasing_by`.
set_option linter.unusedVariables false in
/-- `Secc::pump`: decodes and dispatches frames until one needs answering. -/
def pump (codec : Codec) (s : Secc) (now : Instant) : Except SeccError Unit × Secc :=
  if s.closed ∨ s.outstanding.isSome then (.ok (), s)
  else
    match hnext : s.conn.nextMessage codec with
    | (.error e, conn) => (.error (.connection e), { s with conn := conn })
    | (.ok none, conn) => (.ok (), { s with conn := conn })
    | (.ok (some message), conn) =>
        match hdispatch : dispatch codec { s with conn := conn } now message with
        | (.error e, s') => (.error e, s')
        | (.ok (), s') => pump codec s' now
  termination_by s.conn.frames.length
  decreasing_by
    have hframes := frames_dispatch codec { s with conn := conn } now message
    rw [hdispatch] at hframes
    have hlen := Connection.length_frames_nextMessage (m := message) (by rw [hnext])
    rw [hnext] at hlen
    rw [hframes]
    exact hlen

/-- A fault in what was read ends the session, whatever the caller makes of the error. -/
def closeOnError (outcome : Except SeccError Unit × Secc) : Except SeccError Unit × Secc :=
  match outcome with
  | (.error e, s) => (.error e, s.closeFatal)
  | (.ok (), s) => (.ok (), s)

/-- `Secc::handle_input`. -/
def handleInput (codec : Codec) (s : Secc) (now : Instant) (data : List UInt8) :
    Except SeccError Unit × Secc :=
  if s.closed then (.ok (), s)
  else
    match s.conn.receive data with
    | (.error e, conn) => closeOnError (.error (.connection e), { s with conn := conn })
    | (.ok (), conn) => closeOnError (pump codec { s with conn := conn } now)

/-- `Secc::join_session`. -/
def joinSession (s : Secc) (sessionId : SessionId) : Secc :=
  { s with config := { s.config with sessionId := sessionId } }

/-- `Secc::resume`. The id is taken only with the flow. -/
def resume (s : Secc) (sessionId : SessionId) (transfer : Iso20.EnergyTransfer) :
    Except ResumeError Unit × Secc :=
  match s.flow with
  | none => (.error .notNegotiated, s)
  | some flow =>
      match flow.resume transfer with
      | .error e => (.error e, s)
      | .ok flow' => (.ok (), { s with flow := some flow' }.joinSession sessionId)

/-- The first half of `Secc::respond`: checks the response and queues it. -/
def answer (codec : Codec) (s : Secc) (response : Message) : Except SeccError Unit × Secc :=
  if response.isRequest then (.error (.notAResponse response.name), s)
  else
    match s.outstanding with
    | none => (.error (.nothingToAnswer response.name), s)
    | some outstanding =>
        if ¬ outstanding.refused ∧ ¬ response.answers outstanding.name then
          (.error (.wrongResponse outstanding.name response.name), s)
        else
          let (stamped, response) := response.setSessionId s.config.sessionId
          if stamped ∧ s.config.sessionId.isNone then (.error .noSessionId, s)
          else
            -- A `FAILED_*` code ends the session, and the flow is told before the next request.
            let s :=
              if response.outcome.any Outcome.isFailure then
                { s with flow := s.flow.map Flow.recordFailure }
              else s
            match s.conn.send codec response with
            | (.error e, conn) => (.error (.connection e), { s with conn := conn })
            | (.ok (), conn) => (.ok (), { s with conn := conn, outstanding := none })

/-- What an answer is followed by, inside `Secc::respond`: the end of a session that was stopped,
or the wait for the next request. -/
def settle (s : Secc) (now : Instant) : Secc :=
  if s.flow.any Flow.isPaused then s.close .paused
  else if s.flow.any Flow.isFinished then s.close .normal
  else if s.closed then s
  else { s with timers := s.timers.arm .sequence now s.config.sequenceTimeout }

/-- `Secc::respond`. -/
def respond (codec : Codec) (s : Secc) (now : Instant) (response : Message) :
    Except SeccError Unit × Secc :=
  match s.answer codec response with
  | (.error e, s') => (.error e, s')
  | (.ok (), s') => closeOnError (pump codec (s'.settle now) now)

/-- One turn of `Secc::handle_timeout`. Every timer but the loop budget ends the session; that one
is remembered, and the flow fails. -/
def expire (s : Secc) (timer : Timer) : Secc :=
  if timer = .ongoing ∧ ¬ s.closed then
    { s with
      overdue := some (s.flow.elim "unknown" Flow.phaseName)
      flow := s.flow.map Flow.recordFailure }
  else s.close (.timeout timer)

theorem running_expire_le (s : Secc) (timer : Timer) :
    (s.expire timer).timers.running ≤ s.timers.running := by
  unfold expire
  split
  · exact Nat.le_refl _
  · unfold close
    split
    · exact Nat.le_refl _
    · exact Nat.zero_le _

-- The equations of the matches are for `decreasing_by`.
set_option linter.unusedVariables false in
/-- `Secc::handle_timeout`. -/
def handleTimeout (s : Secc) (now : Instant) : Secc :=
  match hexpired : s.timers.expired now with
  | (none, _) => s
  | (some timer, timers) => handleTimeout ({ s with timers := timers }.expire timer) now
  termination_by s.timers.running
  decreasing_by
    refine Nat.lt_of_le_of_lt (running_expire_le _ timer) ?_
    rcases s.timers.expired_cases now with ⟨h, -⟩ | ⟨timer', d, h, hd, -⟩
    · rw [h] at hexpired
      cases hexpired
    · rw [h] at hexpired
      cases hexpired
      exact Timers.running_disarm_lt hd

/-- `Secc::poll_event`. -/
def pollEvent (s : Secc) : Option Event × Secc :=
  (s.events.head?, { s with events := s.events.tail })

/-- `Secc::take_transmit`. -/
def takeTransmit (s : Secc) : List UInt8 × Secc :=
  (s.conn.takeTransmit.1, { s with conn := s.conn.takeTransmit.2 })

/-! ## A session as its application drives it

A run is a list of calls; what it emits and what it queues are kept apart, each in order. -/

inductive Call where
  | opened (now : Instant)
  | handleInput (now : Instant) (data : List UInt8)
  | respond (now : Instant) (response : Message)
  | joinSession (sessionId : SessionId)
  | resume (sessionId : SessionId) (transfer : Iso20.EnergyTransfer)
  | handleTimeout (now : Instant)
  | pollEvent
  | takeTransmit
  deriving DecidableEq

/-- The station after a call. -/
def call (codec : Codec) (s : Secc) : Call → Secc
  | .opened now => s.opened now
  | .handleInput now data => (s.handleInput codec now data).2
  | .respond now response => (s.respond codec now response).2
  | .joinSession sessionId => s.joinSession sessionId
  | .resume sessionId transfer => (s.resume sessionId transfer).2
  | .handleTimeout now => s.handleTimeout now
  | .pollEvent => s.pollEvent.2
  | .takeTransmit => s.takeTransmit.2

/-- The station and the instant at which a call starts to read frames: `Secc.handleInput` once the
input has been framed, `Secc.respond` once the response has been queued. -/
def reading (codec : Codec) (s : Secc) : Call → Option (Secc × Instant)
  | .handleInput now data =>
      if s.closed then none
      else
        match s.conn.receive data with
        | (.ok (), conn) => some ({ s with conn := conn }, now)
        | (.error _, _) => none
  | .respond now response =>
      match s.answer codec response with
      | (.ok (), s') => some (s'.settle now, now)
      | (.error _, _) => none
  | _ => none

/-- The events a call queues. -/
def emits (codec : Codec) (s : Secc) (c : Call) : List Event :=
  (s.call codec c).events.drop s.events.length

/-- The response a call puts on the transmit queue, when it is the application's answer to the
outstanding request. -/
def queues (codec : Codec) (s : Secc) : Call → List Message
  | .respond _ response =>
      match (s.answer codec response).1 with
      | .ok () => [response]
      | .error _ => []
  | _ => []

/-- The bytes a call adds to the transmit queue. -/
def writes (codec : Codec) (s : Secc) (c : Call) : List UInt8 :=
  (s.call codec c).conn.tx.drop s.conn.tx.length

/-- The station a run of `calls` leaves behind. -/
def after (codec : Codec) (config : SeccConfig) (calls : List Call) : Secc :=
  run (call codec) (.new config) calls

/-- The events of a run, in the order they were queued. -/
def emitted (codec : Codec) (config : SeccConfig) (calls : List Call) : List Event :=
  outputs (call codec) (emits codec) (.new config) calls

/-- The responses of a run that `Secc.respond` queued, in order. -/
def queued (codec : Codec) (config : SeccConfig) (calls : List Call) : List Message :=
  outputs (call codec) (queues codec) (.new config) calls

@[simp] theorem after_nil (codec : Codec) (config : SeccConfig) :
    after codec config [] = .new config := rfl

@[simp] theorem emitted_nil (codec : Codec) (config : SeccConfig) : emitted codec config [] = [] :=
  rfl

@[simp] theorem queued_nil (codec : Codec) (config : SeccConfig) : queued codec config [] = [] :=
  rfl

@[simp] theorem after_concat (codec : Codec) (config : SeccConfig) (calls : List Call) (c : Call) :
    after codec config (calls ++ [c]) = (after codec config calls).call codec c := run_concat ..

@[simp] theorem emitted_concat (codec : Codec) (config : SeccConfig) (calls : List Call)
    (c : Call) : emitted codec config (calls ++ [c])
      = emitted codec config calls ++ (after codec config calls).emits codec c := outputs_concat ..

@[simp] theorem queued_concat (codec : Codec) (config : SeccConfig) (calls : List Call)
    (c : Call) : queued codec config (calls ++ [c])
      = queued codec config calls ++ (after codec config calls).queues codec c := outputs_concat ..

end Secc

end Iso15118
