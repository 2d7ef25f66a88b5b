import Iso15118.V2gtp
import Iso15118.Session.Basic
import Iso15118.Session.Clock
import Iso15118.Lib.Run

/-!
# SECC discovery

`sdp.rs`: before there is a connection, the vehicle multicasts a two-byte request and waits for a
charger's answer. Both travel as fixed-layout payloads inside a V2GTP frame.

* **`Response.fromFrame`** — what an answer on the wire says, or why it says nothing;
* **`Discovery`** — the vehicle's side, as its application drives it: **`Discovery.start`**,
  **`Discovery.handleTimeout`**, **`Discovery.handleDatagram`** and the polls;
* **`Discovery.Call`**, **`Discovery.call`** — one call of any of these.
-/

namespace Iso15118.Sdp

open Iso15118.Lib Iso15118.Session Iso15118.V2gtp

/-! ## Requests and answers

The two payloads, their frames, and how each is read off a datagram. -/

/-- `REQUEST_LEN`. -/
def requestLen : Nat := 2

/-- `RESPONSE_LEN`. -/
def responseLen : Nat := 20

/-- An IPv6 address. -/
abbrev Address := Bytes 16

inductive SdpError where
  | badLength (expected actual : Nat)
  | unknownSecurity (value : UInt8)
  | unknownTransport (value : UInt8)
  | invalidPort
  | invalidAddress (address : Address)
  | wrongPayloadType (payloadType : PayloadType)
  | trailingData
  | framing (e : V2gtpError)
  deriving DecidableEq

/-- `Security::as_u8`. -/
def securityAsU8 : Security → UInt8
  | .tls => 0x00
  | .none => 0x10

/-- `Security::from_u8`. -/
def securityFromU8 (value : UInt8) : Except SdpError Security :=
  if value = 0x00 then .ok .tls
  else if value = 0x10 then .ok .none
  else .error (.unknownSecurity value)

inductive TransportProtocol where
  | tcp
  | udp
  deriving DecidableEq, Repr

namespace TransportProtocol

def asU8 : TransportProtocol → UInt8
  | .tcp => 0x00
  | .udp => 0x10

def fromU8 (value : UInt8) : Except SdpError TransportProtocol :=
  if value = 0x00 then .ok .tcp
  else if value = 0x10 then .ok .udp
  else .error (.unknownTransport value)

end TransportProtocol

/-- What the vehicle would like to speak. -/
structure Request where
  security : Security
  transport : TransportProtocol
  deriving DecidableEq

namespace Request

/-- A request for a TLS-protected TCP session. -/
def tls : Request := ⟨.tls, .tcp⟩

def toPayload (r : Request) : List UInt8 := [securityAsU8 r.security, r.transport.asU8]

def writeFrame (r : Request) (wireless : Bool) (capacity : Nat) :
    Except V2gtpError (List UInt8) :=
  V2gtp.writeFrame (if wireless then .sdpWirelessRequest else .sdpRequest) r.toPayload capacity

end Request

/-- Where and how to connect. -/
structure Response where
  address : Address
  port : UInt16
  security : Security
  transport : TransportProtocol
  deriving DecidableEq

namespace Response

def toPayload (r : Response) : List UInt8 :=
  r.address.toList ++ u16ToBe r.port ++ [securityAsU8 r.security, r.transport.asU8]

/-- `Response::from_payload`. -/
def fromPayload (payload : List UInt8) : Except SdpError Response :=
  if h : payload.length = responseLen then do
    let address : Address := ⟨payload.take 16, by
      rw [List.length_take, h]
      rfl⟩
    let port := u16FromBe (payload.getD 16 0) (payload.getD 17 0)
    if port = 0 then throw .invalidPort
    -- the unspecified address names nothing, and a multicast group is no end of a connection
    if address = Bytes.replicate 16 0 ∨ payload.getD 0 0 = 0xff then throw (.invalidAddress address)
    let security ← securityFromU8 (payload.getD 18 0)
    let transport ← TransportProtocol.fromU8 (payload.getD 19 0)
    return { address, port, security, transport }
  else .error (.badLength responseLen payload.length)

def writeFrame (r : Response) (wireless : Bool) (capacity : Nat) :
    Except V2gtpError (List UInt8) :=
  V2gtp.writeFrame (if wireless then .sdpWirelessResponse else .sdpResponse) r.toPayload capacity

/-- `PayloadType::is_sdp_response`. -/
def isSdpResponse : PayloadType → Bool
  | .sdpResponse | .sdpWirelessResponse => true
  | _ => false

/-- `Response::from_frame`. -/
def fromFrame (frame : List UInt8) : Except SdpError Response :=
  match splitFrame frame responseLen with
  | .error e => .error (.framing e)
  | .ok split =>
      if ¬ isSdpResponse split.header.payloadType then
        .error (.wrongPayloadType split.header.payloadType)
      else if split.rest ≠ [] then .error .trailingData
      else fromPayload split.payload

/-- `fe80::/10`. -/
def isLinkLocal (r : Response) : Bool :=
  r.address.get 0 = 0xfe ∧ r.address.get 1 &&& 0xc0 = 0x80

end Response

/-! ## Discovery

The engine's fields: one slot each for a datagram to send, a notice and an outcome, and the timer
with its count of attempts. -/

/-- Why a well-formed answer is one the vehicle must not act on. -/
inductive Refusal where
  | securityDowngrade
  | transportMismatch
  | offLink
  deriving DecidableEq, Repr

/-- What discovery produced. -/
inductive Event where
  | found (response : Response)
  | refused (response : Response) (reason : Refusal)
  | gaveUp (attempts : UInt32)
  | conflict (accepted other : Response)
  deriving DecidableEq

namespace Timers

/-- `RESPONSE_TIMEOUT`. -/
def responseTimeout : Millis := .fromMillis 250

/-- `MAX_REQUESTS`. -/
def maxRequests : UInt32 := 50

end Timers

/-- The vehicle's side of discovery. -/
structure Discovery where
  request : Request
  wireless : Bool
  allowOffLink : Bool
  interval : Millis
  maxAttempts : UInt32
  attempts : UInt32
  deadline : Option Instant
  pending : Option (List UInt8)
  /-- The run's one outcome: `found` or `gaveUp`. -/
  outcome : Option Event
  /-- The most recent thing worth reporting that is not the outcome. -/
  notice : Option Event
  /-- What `found` reported, kept so a later answer can be compared against it. -/
  accepted : Option Response
  done : Bool
  deriving DecidableEq

namespace Discovery

/-- A discovery run that will ask for `request`. -/
def new (request : Request) : Discovery where
  request := request
  wireless := false
  allowOffLink := false
  interval := Timers.responseTimeout
  maxAttempts := Timers.maxRequests
  attempts := 0
  deadline := none
  pending := none
  outcome := none
  notice := none
  accepted := none
  done := false

def withWireless (s : Discovery) (wireless : Bool) : Discovery := { s with wireless }

def withAllowOffLink (s : Discovery) (allow : Bool) : Discovery := { s with allowOffLink := allow }

def withInterval (s : Discovery) (interval : Millis) : Discovery := { s with interval }

def withMaxAttempts (s : Discovery) (maxAttempts : UInt32) : Discovery := { s with maxAttempts }

/-- Any configuration. -/
def configured (request : Request) (wireless allowOffLink : Bool) (interval : Millis)
    (maxAttempts : UInt32) : Discovery :=
  ((((new request).withWireless wireless).withAllowOffLink allowOffLink).withInterval
    interval).withMaxAttempts maxAttempts

/-! ## Requests out

A request goes into its slot and the timer starts anew. When it has run out often enough the run
is over. -/

/-- Queues the request once more and arms the timer. -/
def send (s : Discovery) (now : Instant) : Discovery :=
  let s :=
    match s.request.writeFrame s.wireless (headerLen + requestLen) with
    | .ok frame => { s with pending := some frame }
    | .error _ => s
  { s with attempts := s.attempts + 1, deadline := some (now.saturatingAdd s.interval) }

/-- Sends the first request. -/
def start (s : Discovery) (now : Instant) : Discovery :=
  { s with
    attempts := 0
    done := false
    outcome := none
    notice := none
    accepted := none : Discovery }.send now

/-- Repeats the request, or gives up once the attempt ceiling is reached. -/
def handleTimeout (s : Discovery) (now : Instant) : Discovery :=
  if s.done ∨ s.deadline.all (fun d => now < d) then s
  else
    let s := { s with deadline := none }
    if s.maxAttempts ≤ s.attempts then
      { s with done := true, outcome := some (.gaveUp s.attempts) }
    else s.send now

/-! ## Answers in

An answer that reads is usable, refused, or comes after one that was taken. -/

/-- Why `response` is not one to act on, if it is not. -/
def refusal (s : Discovery) (response : Response) : Option Refusal :=
  if response.transport ≠ s.request.transport then some .transportMismatch
  -- More security than requested is fine, and the vehicle must then use it.
  else if s.request.security = .tls ∧ response.security = .none then some .securityDowngrade
  else if ¬ s.allowOffLink ∧ ¬ response.isLinkLocal then some .offLink
  else none

/-- Takes in a well-formed answer. -/
def answered (s : Discovery) (response : Response) : Discovery :=
  match s.accepted with
  | some accepted =>
      -- All that is left worth saying is that it disagrees with the answer taken.
      if response ≠ accepted ∧ s.refusal response = none then
        { s with notice := some (.conflict accepted response) }
      else s
  | none =>
      -- An answer does not undo giving up.
      if s.done then s
      else
        match s.refusal response with
        | some reason => { s with notice := some (.refused response reason) }
        | none =>
            { s with
              done := true
              deadline := none
              pending := none
              accepted := some response
              outcome := some (.found response) }

/-- Feeds a datagram received on the discovery port. A malformed one is an error, and leaves the
run untouched. -/
def handleDatagram (s : Discovery) (_now : Instant) (frame : List UInt8) :
    Except SdpError Unit × Discovery :=
  match Response.fromFrame frame with
  | .error e => (.error e, s)
  | .ok response => (.ok (), s.answered response)

/-! ## Polls

The slots are emptied one at a time, the notice before the outcome. -/

/-- The datagram to multicast, if one is due. -/
def pollTransmit (s : Discovery) : Option (List UInt8) × Discovery :=
  (s.pending, { s with pending := none })

/-- The next event, if any. A notice comes out before the outcome. -/
def pollEvent (s : Discovery) : Option Event × Discovery :=
  match s.notice with
  | some notice => (some notice, { s with notice := none })
  | none => (s.outcome, { s with outcome := none })

/-- When `handleTimeout` must next be called. -/
def pollTimeout (s : Discovery) : Option Instant := s.deadline

def isFinished (s : Discovery) : Bool := s.done

/-! ## The engine as it is driven

A run is a list of calls, each with its clock reading where it has one. -/

/-- What an application does to its discovery. -/
inductive Call where
  | start (now : Instant)
  | timeout (now : Instant)
  | datagram (now : Instant) (frame : List UInt8)
  | pollTransmit
  | pollEvent
  deriving DecidableEq

/-- The discovery after a call. -/
def call (s : Discovery) : Call → Discovery
  | .start now => s.start now
  | .timeout now => s.handleTimeout now
  | .datagram now frame => (s.handleDatagram now frame).2
  | .pollTransmit => s.pollTransmit.2
  | .pollEvent => s.pollEvent.2

end Discovery

end Iso15118.Sdp
