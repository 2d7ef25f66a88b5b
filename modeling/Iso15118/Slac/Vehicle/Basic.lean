import Iso15118.Slac.Matching
import Iso15118.Lib.Run

/-!
# The vehicle's half of a matching run

`Ev` of `slac/matching.rs`: the vehicle broadcasts a request, sends its sounding burst to every
station that answers, collects the attenuation each of them reports, picks the least attenuated
one and takes the network key from it.

* **`Ev.start`**, **`Ev.handleFrame`**, **`Ev.handleTimeout`** — the engine;
* **`Ev.Call`**, **`Ev.call`** — one call of any of these, with **`Ev.queued`** and
  **`Ev.emitted`**, the frames and events it appended.
-/

namespace Iso15118.Slac

open Iso15118.Lib Iso15118.Session

/-! ## The engine's data

The fields of the source. Of the reports only the best one so far is kept, and of the stations
that have answered their addresses. -/

structure EvConfig where
  mac : MacAddr
  id : StationId
  runId : RunId
  soundingPayload : Bytes 16
  attenuationLimit : Option UInt8
  deriving DecidableEq

/-- Something the vehicle's application has to know about. -/
inductive EvEvent where
  | stationFound (mac : MacAddr)
  | measurement (evseMac : MacAddr) (meanAttenuation : UInt8)
  | matched (evseMac : MacAddr) (evseId : StationId) (nmk : Nmk) (nid : Nid)
  | failed (reason : Reason)
  deriving DecidableEq

inductive EvState where
  | idle
  | probing
  | sounding
  | awaitingMeasurements
  | awaitingKey
  | matched
  | failed
  deriving DecidableEq, Repr

structure Ev where
  config : EvConfig
  state : EvState
  /-- The least attenuated station reported so far: its address, its identity, its mean. -/
  best : Option (MacAddr × StationId × UInt8)
  answered : List MacAddr
  remainingSounds : UInt8
  remainingStarts : UInt8
  deadline : Option Instant
  /-- When the window for collecting reports must close, however many arrive inside it. -/
  resultsDeadline : Option Instant
  out : List Outgoing
  events : List EvEvent
  deriving DecidableEq

namespace Ev

def new (config : EvConfig) : Ev where
  config := config
  state := .idle
  best := none
  answered := []
  remainingSounds := 0
  remainingStarts := 0
  deadline := none
  resultsDeadline := none
  out := []
  events := []

/-! ## Queues and timers

As on the station's side. -/

def fail (s : Ev) (reason : Reason) : Ev :=
  if s.state = .failed then s
  else { s with state := .failed, deadline := none, events := s.events ++ [.failed reason] }

def queue (s : Ev) (destination : MacAddr) (mmtype : Mmtype)
    (encode : Nat → Except SlacError (List UInt8)) : Ev :=
  match frame destination s.config.mac mmtype encode with
  | .ok out => if s.out.length < maxPendingFrames then { s with out := s.out ++ [out] } else s
  | .error _ => s.fail .encodingFailed

def arm (s : Ev) (now : Instant) (after : UInt64) : Ev :=
  { s with deadline := some (now + Millis.fromMillis after) }

def note (s : Ev) (event : EvEvent) : Ev :=
  if s.events.length < maxPendingEvents then { s with events := s.events ++ [event] } else s

/-! ## Starting a run

A start leaves nothing of the run before. -/

/-- Starts the run, or restarts it: everything the previous attempt learned goes. -/
def start (s : Ev) (now : Instant) : Ev :=
  let s := { s with
    best := none
    answered := []
    remainingSounds := 0
    remainingStarts := 0
    out := []
    resultsDeadline := none }
  let s := s.queue broadcast .slacParmReq (SlacParmReq.mk s.config.runId).encode
  let s := { s with state := .probing }
  s.arm now Timers.ttMatchResponseMs

/-! ## Frames in

Answers and reports are taken from anybody, within limits; a key is taken from the station
picked. -/

/-- A station answers. A confirmation that names somebody else is an answer to somebody else's
run that happens to quote our id. -/
def onParmCnf (s : Ev) (source : MacAddr) (cnf : SlacParmCnf) : Ev :=
  if cnf.runId = s.config.runId ∧ cnf.forwardingSta = s.config.mac ∧ source ∉ s.answered
      ∧ s.answered.length < maxStations then
    ({ s with answered := s.answered ++ [source] } : Ev).note (.stationFound source)
  else s

/-- The report is about this vehicle's sounding burst. -/
def concerns (s : Ev) (ind : AttenCharInd) : Bool :=
  ind.runId = s.config.runId ∧ ind.sourceAddress = s.config.mac ∧ ind.sourceId = s.config.id

/-- Audible, but not plausibly at the other end of this cable. -/
def tooFar (s : Ev) (mean : UInt8) : Bool := s.config.attenuationLimit.any fun limit => mean > limit

/-- The report is of a lower attenuation than any before it. -/
def improves (s : Ev) (mean : UInt8) : Bool := s.best.all fun (_, _, best) => mean < best

/-- The wait after a report: other stations get their chance, but never past the end of the
window opened when the sounding burst finished. -/
def reportDeadline (s : Ev) (now : Instant) : Instant :=
  let next := now.saturatingAdd (Millis.fromMillis Timers.ttMatchResponseMs)
  match s.resultsDeadline with
  | some stop => if stop < next then stop else next
  | none => next

def onMeasurement (s : Ev) (now : Instant) (source : MacAddr) (ind : AttenCharInd) : Ev :=
  match ind.profile.meanAttenuation with
  | none => s
  | some mean =>
      let s := s.note (.measurement source mean)
      if s.tooFar mean then s
      else
        -- Quietest wins: the lowest attenuation is the shortest path.
        let s := if s.improves mean then { s with best := some (source, ind.respId, mean) } else s
        if s.state = .awaitingMeasurements then { s with deadline := some (s.reportDeadline now) }
        else s

/-- Takes the network key, but only from the station this vehicle picked, and only one addressed
to this vehicle. -/
def onMatchCnf (s : Ev) (source : MacAddr) (cnf : SlacMatchCnf) : Ev :=
  if s.state ≠ .awaitingKey ∨ cnf.runId ≠ s.config.runId then s
  else
    match s.best with
    | none => s
    | some (chosenMac, chosenId, _) =>
        if source ≠ chosenMac ∨ cnf.evseMac ≠ chosenMac ∨ cnf.evseId ≠ chosenId then s
        else if cnf.pevMac ≠ s.config.mac ∨ cnf.pevId ≠ s.config.id then s
        else
          { s with
            state := .matched
            deadline := none
            events := s.events ++ [.matched cnf.evseMac cnf.evseId cnf.nmk cnf.nid] }

/-- Feeds one received Ethernet frame. -/
def handleFrame (s : Ev) (now : Instant) (raw : List UInt8) : Ev :=
  match receive raw with
  | some (source, .parmCnf m) => s.onParmCnf source m
  | some (source, .attenInd m) => if s.concerns m then s.onMeasurement now source m else s
  | some (source, .matchCnf m) => s.onMatchCnf source m
  | _ => s

/-! ## The clock, which paces the burst

Each timeout sends the next message of the burst, and the last one opens the window for reports. -/

def startAttenInd (s : Ev) : StartAttenCharInd where
  numSounds := Timers.cEvMatchMnbc
  timeout := Timers.soundingTimeout
  respType := respType
  forwardingSta := s.config.mac
  runId := s.config.runId

def soundInd (s : Ev) : MnbcSoundInd where
  senderId := s.config.id
  remainingSoundCount := s.remainingSounds
  runId := s.config.runId
  random := s.config.soundingPayload

/-- Sends the next message of the burst and schedules the one after it. -/
def sendNextSound (s : Ev) (now : Instant) : Ev :=
  if s.remainingStarts > 0 then
    let s := { s with remainingStarts := s.remainingStarts - 1 }
    let s := s.queue broadcast .startAttenCharInd s.startAttenInd.encode
    s.arm now Timers.tpEvBatchMsgIntervalMs
  else if s.remainingSounds > 0 then
    let s := { s with remainingSounds := s.remainingSounds - 1 }
    let s := s.queue broadcast .mnbcSoundInd s.soundInd.encode
    s.arm now Timers.tpEvBatchMsgIntervalMs
  else
    -- The burst is over; the stations now have their measurements to send.
    let s := { s with state := .awaitingMeasurements }
    let s := s.arm now Timers.ttEvAttenResultsMs
    { s with resultsDeadline := s.deadline }

def beginSounding (s : Ev) (now : Instant) : Ev :=
  let s := { s with
    remainingStarts := Timers.cEvStartAttenCharInds
    remainingSounds := Timers.cEvMatchMnbc
    state := .sounding }
  s.sendNextSound now

def attenRsp (s : Ev) (evseId : StationId) : AttenCharRsp where
  sourceAddress := s.config.mac
  runId := s.config.runId
  sourceId := s.config.id
  respId := evseId
  result := 0

def matchReq (s : Ev) (evseMac : MacAddr) (evseId : StationId) : SlacMatchReq where
  pevId := s.config.id
  pevMac := s.config.mac
  evseId := evseId
  evseMac := evseMac
  runId := s.config.runId

/-- The window for reports is over: the least attenuated station is told, and asked for its
key. -/
def choose (s : Ev) (now : Instant) : Ev :=
  match s.best with
  | none => s.fail .tooFarAway
  | some (evseMac, evseId, _) =>
      let s := s.queue evseMac .attenCharRsp (s.attenRsp evseId).encode
      let s := s.queue evseMac .slacMatchReq (s.matchReq evseMac evseId).encode
      let s := { s with state := .awaitingKey }
      s.arm now Timers.ttMatchJoinMs

/-- Advances the clock. -/
def handleTimeout (s : Ev) (now : Instant) : Ev :=
  if s.deadline.all (fun d => now < d) then s
  else
    let s := { s with deadline := none }
    match s.state with
    | .probing => if s.answered.isEmpty then s.fail .noStation else s.beginSounding now
    | .sounding => s.sendNextSound now
    | .awaitingMeasurements => s.choose now
    | .awaitingKey => s.fail .timeout
    | .idle | .matched | .failed => s

/-! ## The engine as it is driven

A run is a list of calls, as on the station's side. -/

def pollTransmit (s : Ev) : Option Outgoing × Ev := (s.out.head?, { s with out := s.out.tail })

def pollEvent (s : Ev) : Option EvEvent × Ev := (s.events.head?, { s with events := s.events.tail })

/-- What an application does to its vehicle. -/
inductive Call where
  | start (now : Instant)
  | frame (now : Instant) (raw : List UInt8)
  | timeout (now : Instant)
  | pollTransmit
  | pollEvent
  deriving DecidableEq

/-- The vehicle after a call. -/
def call (s : Ev) : Call → Ev
  | .start now => s.start now
  | .frame now raw => s.handleFrame now raw
  | .timeout now => s.handleTimeout now
  | .pollTransmit => s.pollTransmit.2
  | .pollEvent => s.pollEvent.2

/-- The frames a call appended to the queue. A restart empties the queue first. -/
def queued (t : Transition Ev Call) : List Outgoing :=
  match t.call with
  | .start _ => t.after.out
  | _ => t.after.out.drop t.before.out.length

/-- The events a call appended to the queue. -/
def emitted (t : Transition Ev Call) : List EvEvent :=
  t.after.events.drop t.before.events.length

/-- The vehicle after `calls`, from a fresh start. -/
def after (config : EvConfig) (calls : List Call) : Ev := Lib.run call (new config) calls

/-- The history of `calls`, from a fresh start. -/
def history (config : EvConfig) (calls : List Call) : List (Transition Ev Call) :=
  trace call (new config) calls

/-! ## A sample run

One vehicle and stations numbered by a byte, for the runs that stand beside the results. -/

namespace Sample

def vehicle : EvConfig where
  mac := Bytes.replicate 6 0x01
  id := Bytes.replicate 17 0x56
  runId := Bytes.replicate 8 0x07
  soundingPayload := Bytes.replicate 16 0xA5
  attenuationLimit := none

/-- The stations within earshot, by the byte their addresses and identities repeat. -/
def evseMac (n : UInt8) : MacAddr := Bytes.replicate 6 n

def evseId (n : UInt8) : StationId := Bytes.replicate 17 n

def parmCnf (n : UInt8) : Call :=
  .frame ⟨10⟩ (wire vehicle.mac (evseMac n) .slacParmCnf
    (SlacParmCnf.mk broadcast 10 6 respType vehicle.mac vehicle.runId).encode)

/-- Every timeout of a burst: three announcements, ten sounding packets, and the end of it. -/
def burst : List Call := (List.range 14).map fun k => .timeout ⟨UInt64.ofNat (1000 * (k + 1))⟩

/-- A station reports the same attenuation across the band. -/
def attenInd (n attenuation : UInt8) : Call :=
  .frame ⟨14100⟩ (wire vehicle.mac (evseMac n) .attenCharInd
    (AttenCharInd.mk vehicle.mac vehicle.runId vehicle.id (evseId n) 10
      ⟨58, Bytes.replicate 58 attenuation⟩).encode)

/-- The window for reports closes. -/
def closing : Call := .timeout ⟨20000⟩

def matchCnf (n : UInt8) : Call :=
  .frame ⟨20100⟩ (wire vehicle.mac (evseMac n) .slacMatchCnf
    (SlacMatchCnf.mk vehicle.id vehicle.mac (evseId n) (evseMac n) vehicle.runId
      (Bytes.replicate 7 0x4E) (Bytes.replicate 16 0x4B)).encode)

/-- A run up to the choice: station `n` is the only one to answer and to report. -/
def chosen (n : UInt8) : List Call :=
  [.start ⟨0⟩, parmCnf n] ++ burst ++ [attenInd n 30, closing]

end Sample

end Ev

end Iso15118.Slac
