import Iso15118.Slac.Matching
import Iso15118.Lib.Run

/-!
# The charging station's half of a matching run

`Evse` of `slac/matching.rs`: a station waits for a vehicle to open a run, counts its sounding
packets, reports the attenuation its modem measured, and hands its network key to the vehicle
that picks it.

* **`Evse.handleFrame`**, **`Evse.handleTimeout`**, **`Evse.observe`**, **`Evse.reset`** — the
  engine, as its application drives it;
* **`Evse.Call`**, **`Evse.call`** — one call of any of these, with **`Evse.queued`** and
  **`Evse.emitted`**, the frames and events it appended;
* **`Evse.opening`**, **`Evse.closesBurst`**, **`Evse.endsOtherwise`** — the calls that open a run,
  those that close its sounding burst, and those that end it in any other way.
-/

namespace Iso15118.Slac

open Iso15118.Lib Iso15118.Session

/-! ## The engine's data

The fields of the source. A run holds what is known of the vehicle that opened it. -/

/-- What the station's matching engine needs to know. -/
structure EvseConfig where
  mac : MacAddr
  id : StationId
  nmk : Nmk
  nid : Nid
  attenuationLimit : Option UInt8
  deriving DecidableEq

/-- Something the station's application has to know about. -/
inductive EvseEvent where
  | runStarted (runId : RunId)
  | measured (meanAttenuation sounds : UInt8)
  | matched (pevId : StationId) (pevMac : MacAddr) (nmk : Nmk)
  | failed (reason : Reason)
  deriving DecidableEq

inductive EvseState where
  | idle
  | sounding
  | measured
  | matched
  | failed
  deriving DecidableEq, Repr

structure Run where
  id : RunId
  pevMac : MacAddr
  pevId : StationId
  sounds : UInt8
  expectedSounds : UInt8
  deriving DecidableEq

structure Evse where
  config : EvseConfig
  state : EvseState
  run : Option Run
  /-- What the modem reported hearing, set by `observe`. -/
  measured : Option AttenProfile
  deadline : Option Instant
  out : List Outgoing
  events : List EvseEvent
  deriving DecidableEq

namespace Evse

/-- A station waiting for a vehicle to start matching. -/
def new (config : EvseConfig) : Evse where
  config := config
  state := .idle
  run := none
  measured := none
  deadline := none
  out := []
  events := []

/-! ## Queues and timers

Frames and notices stop at a limit; what ends a run does not. -/

/-- Ends the run, once. -/
def fail (s : Evse) (reason : Reason) : Evse :=
  if s.state = .failed then s
  else { s with state := .failed, deadline := none, events := s.events ++ [.failed reason] }

/-- Queues a frame, unless the caller has stopped draining; a message that cannot be built ends
the run. -/
def queue (s : Evse) (destination : MacAddr) (mmtype : Mmtype)
    (encode : Nat → Except SlacError (List UInt8)) : Evse :=
  match frame destination s.config.mac mmtype encode with
  | .ok out => if s.out.length < maxPendingFrames then { s with out := s.out ++ [out] } else s
  | .error _ => s.fail .encodingFailed

def arm (s : Evse) (now : Instant) (after : UInt64) : Evse :=
  { s with deadline := some (now + Millis.fromMillis after) }

/-- Queues an informational event, unless the caller has stopped draining. -/
def note (s : Evse) (event : EvseEvent) : Evse :=
  if s.events.length < maxPendingEvents then { s with events := s.events ++ [event] } else s

/-! ## Opening a run

A request opens a run if none of another vehicle is in progress. The same vehicle may repeat it,
and starts over. -/

/-- A `CM_SLAC_PARM.REQ` opens a run here: the station has not handed over its key, and no run
of another vehicle, or under another id, is in progress. -/
def admits (s : Evse) (source : MacAddr) (req : SlacParmReq) : Bool :=
  s.state ≠ .matched
    ∧ ¬ (s.run.any (fun run => run.pevMac ≠ source ∨ run.id ≠ req.runId)
          ∧ (s.state = .sounding ∨ s.state = .measured))

/-- The confirmation a request to open a run is answered with. -/
def parmCnf (source : MacAddr) (req : SlacParmReq) : SlacParmCnf where
  -- Sounding is broadcast so every station in earshot can measure it.
  mSoundTarget := broadcast
  numSounds := Timers.cEvMatchMnbc
  timeout := Timers.soundingTimeout
  respType := respType
  forwardingSta := source
  runId := req.runId

def newRun (source : MacAddr) (req : SlacParmReq) : Run where
  id := req.runId
  pevMac := source
  pevId := Bytes.replicate 17 0
  sounds := 0
  expectedSounds := Timers.cEvMatchMnbc

/-- The run is created and confirmed. A retry re-opens the same run: the sounding count goes
back to zero, and the application is told, every time. -/
def openRun (s : Evse) (now : Instant) (source : MacAddr) (req : SlacParmReq) : Evse :=
  let s := { s with run := some (newRun source req), state := .sounding }
  let s := s.note (.runStarted req.runId)
  let s := s.queue source .slacParmCnf (parmCnf source req).encode
  -- A vehicle that opens a run and then goes quiet must not hold the station forever.
  s.arm now Timers.ttEvseMatchSessionMs

def onParmReq (s : Evse) (now : Instant) (source : MacAddr) (req : SlacParmReq) : Evse :=
  if s.admits source req then s.openRun now source req else s

/-! ## The sounding burst

Packets are counted as they come in. The burst is closed by the last one expected, or by the
timer. -/

/-- The run in progress, if it has this id and this vehicle opened it. -/
def bound (s : Evse) (runId : RunId) (source : MacAddr) : Option Run :=
  s.run.filter fun r => r.id = runId ∧ r.pevMac = source

def onStartAtten (s : Evse) (now : Instant) (source : MacAddr) (ind : StartAttenCharInd) : Evse :=
  match s.bound ind.runId source with
  | none => s
  | some run =>
      -- The sounding window opens now, and closes whether or not every packet arrives.
      let s := { s with run := some { run with expectedSounds := ind.numSounds } }
      s.arm now Timers.ttEvseMatchMnbcMs

/-- The report of a measured sounding burst. -/
def attenInd (s : Evse) (run : Run) (profile : AttenProfile) : AttenCharInd where
  sourceAddress := run.pevMac
  runId := run.id
  sourceId := run.pevId
  respId := s.config.id
  numSounds := run.sounds
  profile := profile

/-- The attenuation a profile is judged by: one with no groups counts as the quietest link. -/
def meanOf (profile : AttenProfile) : UInt8 := profile.meanAttenuation.getD 255

/-- The measurement is reported to the vehicle. -/
def report (s : Evse) (now : Instant) (run : Run) (profile : AttenProfile) : Evse :=
  let s := { s with state := .measured }
  let s := s.note (.measured (meanOf profile) run.sounds)
  let s := s.queue run.pevMac .attenCharInd (s.attenInd run profile).encode
  s.arm now Timers.ttEvseMatchSessionMs

/-- The profile is above the station's own limit. -/
def tooFar (s : Evse) (profile : AttenProfile) : Bool :=
  s.config.attenuationLimit.any fun limit => meanOf profile > limit

/-- Closes the sounding burst: reports what was measured, or ends the run. -/
def finishSounding (s : Evse) (now : Instant) : Evse :=
  if s.state ≠ .sounding then s
  else
    match s.run with
    | none => s
    | some run =>
        match s.measured with
        | none => s.fail .noMeasurement
        | some profile =>
            if s.tooFar profile then s.fail .tooFarAway else s.report now run profile

/-- `u8::saturating_add(1)`. -/
def succSaturating (n : UInt8) : UInt8 := if n = 255 then 255 else n + 1

/-- The run with one more sounding packet counted. -/
def Run.sounded (run : Run) (ind : MnbcSoundInd) : Run :=
  { run with pevId := ind.senderId, sounds := succSaturating run.sounds }

def onSound (s : Evse) (now : Instant) (source : MacAddr) (ind : MnbcSoundInd) : Evse :=
  match s.bound ind.runId source with
  | none => s
  | some run =>
      let run := Run.sounded run ind
      let s := { s with run := some run }
      if run.sounds ≥ run.expectedSounds then s.finishSounding now else s

/-- Records what the modem heard; the last one wins. -/
def observe (s : Evse) (profile : AttenProfile) : Evse := { s with measured := some profile }

/-! ## The choice and the key

The vehicle rejects the report or asks for the key; both are bound to the run in progress. -/

def onAttenRsp (s : Evse) (source : MacAddr) (rsp : AttenCharRsp) : Evse :=
  if (s.bound rsp.runId source).isNone then s
  -- On a shared medium every station hears every frame.
  else if rsp.respId ≠ s.config.id then s
  else if rsp.result ≠ 0 then s.fail .rejected
  else s

/-- The confirmation that hands over the key. -/
def matchCnf (s : Evse) (run : Run) (req : SlacMatchReq) : SlacMatchCnf where
  pevId := req.pevId
  pevMac := req.pevMac
  evseId := s.config.id
  evseMac := s.config.mac
  runId := run.id
  nid := s.config.nid
  nmk := s.config.nmk

/-- The key is handed over, and the run is over. -/
def grant (s : Evse) (run : Run) (req : SlacMatchReq) : Evse :=
  let s := s.queue req.pevMac .slacMatchCnf (s.matchCnf run req).encode
  { s with
    state := .matched
    deadline := none
    events := s.events ++ [.matched req.pevId req.pevMac s.config.nmk] }

def onMatchReq (s : Evse) (source : MacAddr) (req : SlacMatchReq) : Evse :=
  match s.bound req.runId source with
  | none => s
  | some run =>
      -- A station that answers a frame addressed to its neighbour hands the key to a vehicle
      -- that did not pick it.
      if req.evseMac ≠ s.config.mac ∨ req.evseId ≠ s.config.id then s
      else if s.state ≠ .measured then s.fail .outOfSequence
      else s.grant run req

/-! ## The engine as it is driven

A run is a list of calls; what a call puts out is what it appends to the queues. -/

/-- Feeds one received Ethernet frame. -/
def handleFrame (s : Evse) (now : Instant) (raw : List UInt8) : Evse :=
  match receive raw with
  | some (source, .parmReq m) => s.onParmReq now source m
  | some (source, .startAtten m) => s.onStartAtten now source m
  | some (source, .sound m) => s.onSound now source m
  | some (source, .attenRsp m) => s.onAttenRsp source m
  | some (source, .matchReq m) => s.onMatchReq source m
  | _ => s

/-- Advances the clock. -/
def handleTimeout (s : Evse) (now : Instant) : Evse :=
  if s.deadline.any (fun d => d ≤ now) then
    let s := { s with deadline := none }
    match s.state with
    | .sounding =>
        -- The sounding window closed; report what did arrive.
        if s.run.any (fun r => r.sounds > 0) then s.finishSounding now else s.fail .timeout
    | .measured => s.fail .timeout
    | .idle | .matched | .failed => s
  else s

/-- Forgets the run and waits for the next vehicle. -/
def reset (s : Evse) : Evse :=
  { s with state := .idle, run := none, measured := none, deadline := none, out := [] }

/-- `poll_transmit`: the next frame to write leaves the queue. -/
def pollTransmit (s : Evse) : Option Outgoing × Evse :=
  (s.out.head?, { s with out := s.out.tail })

/-- `poll_event`. -/
def pollEvent (s : Evse) : Option EvseEvent × Evse :=
  (s.events.head?, { s with events := s.events.tail })

/-- What an application does to its station. -/
inductive Call where
  | frame (now : Instant) (raw : List UInt8)
  | timeout (now : Instant)
  | observe (profile : AttenProfile)
  | reset
  | pollTransmit
  | pollEvent
  deriving DecidableEq

/-- The station after a call. -/
def call (s : Evse) : Call → Evse
  | .frame now raw => s.handleFrame now raw
  | .timeout now => s.handleTimeout now
  | .observe profile => s.observe profile
  | .reset => s.reset
  | .pollTransmit => s.pollTransmit.2
  | .pollEvent => s.pollEvent.2

/-- The frames a call appended to the queue. -/
def queued (t : Transition Evse Call) : List Outgoing := t.after.out.drop t.before.out.length

/-- The events a call appended to the queue. -/
def emitted (t : Transition Evse Call) : List EvseEvent :=
  t.after.events.drop t.before.events.length

/-- The vehicle and the run id, when the call is a `CM_SLAC_PARM.REQ` that opens a run. -/
def opening (t : Transition Evse Call) : Option (MacAddr × RunId) :=
  match t.call with
  | .frame _ raw =>
      match receive raw with
      | some (source, .parmReq req) =>
          if t.before.admits source req then some (source, req.runId) else none
      | _ => none
  | _ => none

/-- The station after `calls`, from a fresh start. -/
def after (config : EvseConfig) (calls : List Call) : Evse :=
  Lib.run call (new config) calls

/-- The history of `calls`, from a fresh start. -/
def history (config : EvseConfig) (calls : List Call) : List (Transition Evse Call) :=
  trace call (new config) calls

/-- The call closes the sounding burst of the run in progress: its last expected packet has
arrived, or the window has closed on a burst of which something arrived. -/
def closesBurst (t : Transition Evse Call) : Bool :=
  t.before.state = .sounding &&
    match t.call with
    | .frame _ raw =>
        match receive raw with
        | some (source, .sound ind) =>
            (t.before.bound ind.runId source).any fun run =>
              (Run.sounded run ind).sounds ≥ run.expectedSounds
        | _ => false
    | .timeout now =>
        t.before.deadline.any (fun d => d ≤ now) && t.before.run.any (fun r => r.sounds > 0)
    | _ => false

/-- A run is in progress: it has been opened, and nothing has ended it. -/
def InProgress (s : Evse) : Prop := s.state = .sounding ∨ s.state = .measured

instance (s : Evse) : Decidable s.InProgress :=
  inferInstanceAs (Decidable (s.state = .sounding ∨ s.state = .measured))

/-- The call ends the run in progress, in whatever way: it fails, the key is handed over, or the
application resets the station. A retry of the vehicle's own does not, since it re-opens the same
run. -/
def EndsRun (t : Transition Evse Call) : Prop := t.before.InProgress ∧ ¬ t.after.InProgress

/-- The call ends the run in progress otherwise than by closing its burst, as the call and the state
it finds show: the vehicle rejects the report or asks for the key, the deadline is past of a run of
which nothing was heard or which has been reported, or the application resets the station. -/
def endsOtherwise (t : Transition Evse Call) : Bool :=
  t.before.InProgress &&
    match t.call with
    | .frame _ raw =>
        match receive raw with
        | some (source, .attenRsp rsp) =>
            (t.before.bound rsp.runId source).isSome && rsp.respId = t.before.config.id
              && rsp.result ≠ 0
        | some (source, .matchReq req) =>
            (t.before.bound req.runId source).isSome && req.evseMac = t.before.config.mac
              && req.evseId = t.before.config.id
        | _ => false
    | .timeout now =>
        t.before.deadline.any (fun d => d ≤ now) && !closesBurst t
    | .reset => true
    | _ => false

end Evse

/-! ## One vehicle and one station

The frames of a sample exchange, for the concrete runs that stand beside the results. -/

namespace Sample

def pevMac : MacAddr := Bytes.replicate 6 0x01

def pevId : StationId := Bytes.replicate 17 0x56

def runId : RunId := Bytes.replicate 8 0x07

def station : EvseConfig where
  mac := Bytes.replicate 6 0x02
  id := Bytes.replicate 17 0x45
  nmk := Bytes.replicate 16 0x4B
  nid := Bytes.replicate 7 0x4E
  attenuationLimit := none

/-- Thirty decibels across the band. -/
def profile : AttenProfile := ⟨58, Bytes.replicate 58 30⟩

def parmReq : Evse.Call :=
  .frame ⟨0⟩ (wire broadcast pevMac .slacParmReq (SlacParmReq.mk runId).encode)

/-- The vehicle announces a burst of a single packet. -/
def startAtten : Evse.Call :=
  .frame ⟨10⟩ (wire broadcast pevMac .startAttenCharInd
    (StartAttenCharInd.mk 1 6 respType pevMac runId).encode)

def sound : Evse.Call :=
  .frame ⟨20⟩ (wire broadcast pevMac .mnbcSoundInd
    (MnbcSoundInd.mk pevId 0 runId (Bytes.replicate 16 0xA5)).encode)

/-- A key request for this station that gives `mac` as the vehicle's address. -/
def matchReq (mac : MacAddr) : Evse.Call :=
  .frame ⟨30⟩ (wire station.mac pevMac .slacMatchReq
    (SlacMatchReq.mk pevId mac station.id station.mac runId).encode)

end Sample

end Iso15118.Slac
