import Iso15118.Session.Delivery
import Iso15118.Secc.Effect
import Iso15118.Evcc.Effect

/-!
# A vehicle and a station on one cable

The two drivers joined by a byte channel each way. What one side has to transmit is taken and put
behind what is already on its way, and the other side is given the front of that, in pieces of any
length and whenever it suits: **`Link`** has every interleaving of it, with the calls each side has
made by then and the bytes that are on their way.

Of a driver only its **`core`** is of any consequence to the other side; the buffers, the clock and
the events nobody has polled are left out of it.
-/

namespace Iso15118

open Iso15118.Lib Iso15118.Session
open Iso15118.Message (Codec)
open Iso15118.Session.Connection (Frames)

/-! ## The vehicle's end

Of a vehicle the link needs to know what a call sends and what reading does. Everything else a
call changes is not seen from the other side. -/

namespace Evcc

/-- The vehicle without its clock, its events and the bytes it has buffered. -/
def core (e : Evcc) : Evcc :=
  { e with
    timers := .new
    events := []
    phase := none
    answeredAt := none
    conn := { e.conn with rx := [], tx := [], ignored := 0 } }

/-- A call that is the application's own to make: it asks for something, polls, or reads the clock
when nothing is due. -/
def Local (e : Evcc) : Call → Prop
  | .start _ | .request _ _ | .pollEvent => True
  | .handleTimeout now => ∀ timer d, e.timers.deadline timer = some d → ¬ d ≤ now
  | .handleInput _ _ | .takeTransmit | .resume _ => False

/-- A call that changes nothing the other side could see. -/
structure Unmoved (codec : Codec) (e : Evcc) (c : Call) : Prop where
  core : (e.call codec c).core = e.core
  rx : (e.call codec c).conn.rx = e.conn.rx
  tx : (e.call codec c).conn.tx = e.conn.tx
  logs : e.logs codec c = []

theorem handleTimeout_of_quiet {e : Evcc} {now : Instant}
    (h : ∀ timer d, e.timers.deadline timer = some d → ¬ d ≤ now) : e.handleTimeout now = e := by
  rw [handleTimeout]
  split
  · rfl
  · next hexpired =>
    rcases e.timers.expired_cases now with ⟨h', -⟩ | ⟨timer, d, h', hd, hle⟩
    · rw [h'] at hexpired
      cases hexpired
    · exact absurd hle (h timer d hd)

/-- **What a call of the application's does.** Nothing to be seen, or a message goes out. -/
theorem local_cases (codec : Codec) {e : Evcc} {c : Call} (h : e.Local c) :
    Unmoved codec e c
      ∨ (∃ now frame payload, c = .start now ∧ e.outstanding = none ∧ e.flow = none
          ∧ e.closed = false
          ∧ Frames codec e.conn.maxPayloadLen (.appProtocolReq (offered e.config)) frame payload
          ∧ (e.call codec c).core
              = { e.core with
                  offer := some (offered e.config)
                  outstanding := some "supportedAppProtocolReq" }
          ∧ (e.call codec c).conn.rx = e.conn.rx
          ∧ (e.call codec c).conn.tx = e.conn.tx ++ frame
          ∧ e.logs codec c = [.sent (.appProtocolReq (offered e.config))])
      ∨ ∃ now m flow flow' frame payload, c = .request now m ∧ e.closed = false
          ∧ e.outstanding = none ∧ m.isRequest = true ∧ e.flow = some flow
          ∧ flow.accept (m.setSessionId e.sessionId).2 = (.ok (), flow')
          ∧ Frames codec e.conn.maxPayloadLen (m.setSessionId e.sessionId).2 frame payload
          ∧ (e.call codec c).core
              = { e.core with flow := some flow', outstanding := some m.name }
          ∧ (e.call codec c).conn.rx = e.conn.rx
          ∧ (e.call codec c).conn.tx = e.conn.tx ++ frame
          ∧ e.logs codec c = [.sent (m.setSessionId e.sessionId).2] := by
  cases c with
  | start now =>
    rcases e.start_cases codec now with
      ⟨error, hstart⟩ | ⟨frame, hidle, hflow, hopen, hsend, hstart⟩
    -- a call that fails leaves the driver as it was
    · have hcall : e.call codec (.start now) = e := congrArg Prod.snd hstart
      have hsends : e.sends codec (.start now) = [] := by simp only [sends, hstart]
      refine .inl ⟨by rw [hcall], by rw [hcall], by rw [hcall], ?_⟩
      exact logs_of_sends hsends (by rw [hcall])
    · obtain ⟨frame', payload, hframes, heq⟩ := Connection.frames_of_send hsend
      have htx : e.conn.tx ++ frame = e.conn.tx ++ frame' := congrArg Connection.tx heq
      have hcall : e.call codec (.start now) = _ := congrArg Prod.snd hstart
      have hsends : e.sends codec (.start now) = [.appProtocolReq (offered e.config)] := by
        simp only [sends, hstart]
        rfl
      refine .inr (.inl ⟨now, frame', payload, rfl, hidle, hflow, hopen, hframes, ?_, ?_, ?_, ?_⟩)
      · rw [hcall]
        rfl
      · rw [hcall]
      · rw [hcall]
        exact htx
      · exact logs_of_sends hsends (by rw [hcall])
  | request now m =>
    rcases e.request_cases codec now m with ⟨error, hrequest⟩ |
      ⟨flow, flow', frame, phase, timers, hopen, hidle, hreq, hflow, haccept, -, hsend, hrequest⟩
    · have hcall : e.call codec (.request now m) = e := congrArg Prod.snd hrequest
      have hsends : e.sends codec (.request now m) = [] := by simp only [sends, hrequest]
      refine .inl ⟨by rw [hcall], by rw [hcall], by rw [hcall], ?_⟩
      exact logs_of_sends hsends (by rw [hcall])
    · obtain ⟨frame', payload, hframes, heq⟩ := Connection.frames_of_send hsend
      have htx : e.conn.tx ++ frame = e.conn.tx ++ frame' := congrArg Connection.tx heq
      have hcall : e.call codec (.request now m) = _ := congrArg Prod.snd hrequest
      have hsends : e.sends codec (.request now m) = [(m.setSessionId e.sessionId).2] := by
        simp only [sends, hrequest]
      refine .inr (.inr ⟨now, m, flow, flow', frame', payload, rfl, hopen, hidle, hreq, hflow,
        haccept, hframes, ?_, ?_, ?_, ?_⟩)
      · rw [hcall]
        rfl
      · rw [hcall]
      · rw [hcall]
        exact htx
      · exact logs_of_sends hsends (by rw [hcall])
  | pollEvent =>
    -- polling takes an event away and puts none there
    have hemits : e.emits codec .pollEvent = [] :=
      List.drop_eq_nil_of_le (by simp [call, pollEvent])
    refine .inl ⟨rfl, rfl, rfl, ?_⟩
    rw [logs, hemits]
    rfl
  | handleTimeout now =>
    have hcall : e.call codec (.handleTimeout now) = e := handleTimeout_of_quiet h
    refine .inl ⟨by rw [hcall], by rw [hcall], by rw [hcall], ?_⟩
    exact logs_of_sends rfl (by rw [hcall])
  | handleInput now data => exact h.elim
  | takeTransmit => exact h.elim
  | resume transfer => exact h.elim

/-! ### Reading

Bytes arrive in pieces. As long as a message is incomplete they only pile up; with its last byte
it is dispatched as if it had come in one piece. -/

section Reading

variable {codec : Codec} {e : Evcc} {m : Message} {frame payload data more : List UInt8}

/-- Input that completes no frame is kept. -/
theorem handleInput_of_incomplete {conn : Connection} (now : Instant) (hopen : e.closed = false)
    (hreceive : e.conn.receive data = (.ok (), conn)) (hframes : conn.frames = []) :
    e.handleInput codec now data = (.ok (), { e with conn := conn }) := by
  unfold handleInput
  rw [if_neg (by simp [hopen]), hreceive]
  dsimp only
  rw [drain, Connection.nextMessage_of_nil hframes]
  rfl

variable (codec) in
theorem handleInput_nil (now : Instant) (hrx : e.conn.rx = []) (hframes : e.conn.frames = []) :
    e.handleInput codec now [] = (.ok (), e) := by
  cases hclosed : e.closed with
  | true =>
    unfold handleInput
    rw [if_pos hclosed]
  | false =>
    exact handleInput_of_incomplete now hclosed (Connection.receive_nil hrx) hframes

theorem handleInput_part (now : Instant) (hopen : e.closed = false)
    (h : Frames codec e.conn.maxPayloadLen m frame payload) (hframes : e.conn.frames = [])
    (heq : e.conn.rx ++ data ++ more = frame) (hmore : more ≠ []) :
    e.handleInput codec now data
      = (.ok (), { e with conn := { e.conn with rx := e.conn.rx ++ data } }) :=
  handleInput_of_incomplete now hopen (Connection.receive_part h heq hmore) hframes

/-- The vehicle once the frame it was waiting for has been taken off its input. -/
def consumed (e : Evcc) : Evcc := { e with conn := { e.conn with rx := [], frames := [] } }

theorem core_consumed (hframes : e.conn.frames = []) : e.consumed.core = e.core := by
  have hconn : { e.conn with rx := [], frames := [] } = { e.conn with rx := [] } := by
    rw [← hframes]
  unfold consumed
  rw [hconn]
  rfl

/-- **The last byte of a message is what it takes to dispatch it.** -/
theorem handleInput_whole {e' : Evcc} (hcodec : codec.Lossless) (now : Instant)
    (hopen : e.closed = false) (h : Frames codec e.conn.maxPayloadLen m frame payload)
    (hgen : m.generation = e.conn.protocol) (hframes : e.conn.frames = [])
    (hroom : 0 < e.conn.maxPendingFrames) (heq : e.conn.rx ++ data = frame)
    (hdispatch : e.consumed.dispatch now m = (.ok (), e')) :
    e.handleInput codec now data = (.ok (), e') := by
  have hnext := Connection.nextMessage_of_whole
    (c := { e.conn with rx := [], frames := [(m.payloadType, payload)] }) hcodec h hgen rfl
  unfold handleInput
  rw [if_neg (by simp [hopen]), Connection.receive_whole h heq hframes hroom]
  dsimp only
  rw [drain, hnext]
  dsimp only
  unfold consumed at hdispatch
  rw [hdispatch]
  dsimp only
  split
  · rfl
  · -- nothing is framed behind it
    have hleft := frames_dispatch e.consumed now m
    unfold consumed at hleft
    rw [hdispatch] at hleft
    rw [drain, Connection.nextMessage_of_nil hleft]
    rfl

/-- The events of a call that reads are what it puts on record. -/
theorem logs_handleInput {e' : Evcc} {now : Instant} {evs : List Event}
    (h : e.handleInput codec now data = (.ok (), e')) (hevents : e'.events = e.events ++ evs) :
    e.logs codec (.handleInput now data) = evs.map .event := by
  refine logs_eq codec (.handleInput now data) rfl ?_
  show (e.handleInput codec now data).2.events = _
  rw [h]
  exact hevents

variable (codec) in
/-- Nothing on its way, nothing to read. -/
theorem reads_nothing {rest : List UInt8} (now : Instant) (hframes : e.conn.frames = [])
    (h : e.conn.rx ++ data ++ rest = []) :
    e.call codec (.handleInput now data) = e ∧ e.logs codec (.handleInput now data) = []
      ∧ data = [] ∧ rest = [] := by
  obtain ⟨hfront, hrest⟩ := List.append_eq_nil_iff.mp h
  obtain ⟨hrx, hdata⟩ := List.append_eq_nil_iff.mp hfront
  subst hdata
  have hread := handleInput_nil codec now hrx hframes
  exact ⟨congrArg Prod.snd hread, logs_handleInput hread (List.append_nil _).symm, rfl, hrest⟩

/-- **What reading does to a message on its way.** Part of it is missing still, and nothing is to be
seen of the call; or this was the last of it. -/
theorem reads_cases {rest : List UInt8} (now : Instant) (hopen : e.closed = false)
    (h : Frames codec e.conn.maxPayloadLen m frame payload) (hframes : e.conn.frames = [])
    (heq : e.conn.rx ++ data ++ rest = frame) :
    ((e.call codec (.handleInput now data)).core = e.core
        ∧ (e.call codec (.handleInput now data)).conn.rx = e.conn.rx ++ data
        ∧ (e.call codec (.handleInput now data)).conn.tx = e.conn.tx
        ∧ e.logs codec (.handleInput now data) = [])
      ∨ (rest = [] ∧ e.conn.rx ++ data = frame) := by
  by_cases hrest : rest = []
  · rw [hrest, List.append_nil] at heq
    exact .inr ⟨hrest, heq⟩
  · have hread := handleInput_part now hopen h hframes heq hrest
    have hcall : e.call codec (.handleInput now data) = _ := congrArg Prod.snd hread
    refine .inl ⟨by rw [hcall]; rfl, by rw [hcall], by rw [hcall], ?_⟩
    exact logs_handleInput hread (List.append_nil _).symm

end Reading

end Evcc

/-! ## The station's end

The same of the station, which besides has a request to answer or none, and reads nothing while
it has one. -/

namespace Secc

/-- The station without its clock, its events and the bytes it has buffered. -/
def core (s : Secc) : Secc :=
  { s with
    timers := .new
    events := []
    phase := none
    overdue := none
    conn := { s.conn with rx := [], tx := [], ignored := 0 } }

/-- A call that is the application's own to make: it answers, polls, or reads the clock when nothing
is due. -/
def Local (s : Secc) : Call → Prop
  | .opened _ | .respond _ _ | .pollEvent => True
  | .handleTimeout now => ∀ timer d, s.timers.deadline timer = some d → ¬ d ≤ now
  | .handleInput _ _ | .takeTransmit | .joinSession _ | .resume _ _ => False

/-- A call that changes nothing the other side could see. -/
structure Unmoved (codec : Codec) (s : Secc) (c : Call) : Prop where
  core : (s.call codec c).core = s.core
  rx : (s.call codec c).conn.rx = s.conn.rx
  tx : (s.call codec c).conn.tx = s.conn.tx
  emits : s.emits codec c = []

theorem handleTimeout_of_quiet {s : Secc} {now : Instant}
    (h : ∀ timer d, s.timers.deadline timer = some d → ¬ d ≤ now) : s.handleTimeout now = s := by
  rw [handleTimeout]
  split
  · rfl
  · next hexpired =>
    rcases s.timers.expired_cases now with ⟨h', -⟩ | ⟨timer, d, h', hd, hle⟩
    · rw [h'] at hexpired
      cases hexpired
    · exact absurd hle (h timer d hd)

theorem emits_of_events {codec : Codec} {s : Secc} {c : Call}
    (h : (s.call codec c).events = s.events) : s.emits codec c = [] := by
  rw [emits, h]
  exact List.drop_length

/-- With nothing to answer, nothing is queued. -/
theorem queues_of_idle (codec : Codec) {s : Secc} (c : Call)
    (hidle : ∀ now response, c = .respond now response → s.outstanding = none) :
    s.queues codec c = [] := by
  cases c with
  | respond now response =>
    rcases s.answer_cases codec response with ⟨e, flow, h, -⟩ | ⟨o, flow, frame, h, howed, -⟩
    · simp only [queues, h]
    · rw [hidle now response rfl] at howed
      cases howed
  | _ => rfl

/-- With nothing to answer, what the application does cannot be seen. -/
theorem unmoved_of_idle (codec : Codec) {s : Secc} {c : Call} (h : s.Local c)
    (hidle : ∀ now response, c = .respond now response → s.outstanding = none) :
    Unmoved codec s c := by
  have hsame : ∀ {c : Call}, s.call codec c = s → Unmoved codec s c := by
    intro c hcall
    refine ⟨by rw [hcall], by rw [hcall], by rw [hcall], emits_of_events (by rw [hcall])⟩
  cases c with
  | opened now => exact ⟨rfl, rfl, rfl, emits_of_events rfl⟩
  | respond now response =>
    refine hsame ?_
    have hanswer : ∃ error, s.answer codec response = (.error error, s) := by
      unfold answer
      rw [hidle now response rfl]
      split
      · exact ⟨_, rfl⟩
      · exact ⟨_, rfl⟩
    obtain ⟨error, hanswer⟩ := hanswer
    show (s.respond codec now response).2 = s
    rw [respond, hanswer]
  | pollEvent =>
    refine ⟨rfl, rfl, rfl, ?_⟩
    exact List.drop_eq_nil_of_le (by simp [call, pollEvent])
  | handleTimeout now => exact hsame (handleTimeout_of_quiet h)
  | handleInput now data => exact h.elim
  | takeTransmit => exact h.elim
  | joinSession sessionId => exact h.elim
  | resume sessionId transfer => exact h.elim

/-! ### Reading

As on the vehicle's side; the station reads when it is given bytes, and again once it has
answered. -/

section Reading

variable {codec : Codec} {s : Secc} {m : Message} {frame payload data more : List UInt8}

/-- With nothing framed the pump does nothing. -/
theorem pump_of_nil (now : Instant) (h : s.conn.frames = []) :
    s.pump codec now = (.ok (), s) := by
  rw [pump]
  split
  · rfl
  · rw [Connection.nextMessage_of_nil h]

theorem handleInput_of_incomplete {conn : Connection} (now : Instant) (hopen : s.closed = false)
    (hreceive : s.conn.receive data = (.ok (), conn)) (hframes : conn.frames = []) :
    s.handleInput codec now data = (.ok (), { s with conn := conn }) := by
  unfold handleInput
  rw [if_neg (by simp [hopen]), hreceive]
  dsimp only
  rw [pump_of_nil now (by exact hframes)]
  rfl

variable (codec) in
theorem handleInput_nil (now : Instant) (hrx : s.conn.rx = []) (hframes : s.conn.frames = []) :
    s.handleInput codec now [] = (.ok (), s) := by
  cases hclosed : s.closed with
  | true =>
    unfold handleInput
    rw [if_pos hclosed]
  | false =>
    exact handleInput_of_incomplete now hclosed (Connection.receive_nil hrx) hframes

theorem handleInput_part (now : Instant) (hopen : s.closed = false)
    (h : Frames codec s.conn.maxPayloadLen m frame payload) (hframes : s.conn.frames = [])
    (heq : s.conn.rx ++ data ++ more = frame) (hmore : more ≠ []) :
    s.handleInput codec now data
      = (.ok (), { s with conn := { s.conn with rx := s.conn.rx ++ data } }) :=
  handleInput_of_incomplete now hopen (Connection.receive_part h heq hmore) hframes

/-- The station once the frame it was waiting for has been taken off its input. -/
def consumed (s : Secc) : Secc := { s with conn := { s.conn with rx := [], frames := [] } }

theorem core_consumed (hframes : s.conn.frames = []) : s.consumed.core = s.core := by
  have hconn : { s.conn with rx := [], frames := [] } = { s.conn with rx := [] } := by
    rw [← hframes]
  unfold consumed
  rw [hconn]
  rfl

/-- **The last byte of a message is what it takes to dispatch it.** -/
theorem handleInput_whole {s' : Secc} (hcodec : codec.Lossless) (now : Instant)
    (hopen : s.closed = false) (hidle : s.outstanding = none)
    (h : Frames codec s.conn.maxPayloadLen m frame payload)
    (hgen : m.generation = s.conn.protocol) (hframes : s.conn.frames = [])
    (hroom : 0 < s.conn.maxPendingFrames) (heq : s.conn.rx ++ data = frame)
    (hdispatch : s.consumed.dispatch codec now m = (.ok (), s')) :
    s.handleInput codec now data = (.ok (), s') := by
  have hnext := Connection.nextMessage_of_whole
    (c := { s.conn with rx := [], frames := [(m.payloadType, payload)] }) hcodec h hgen rfl
  -- nothing is framed behind it
  have hleft := frames_dispatch codec s.consumed now m
  rw [hdispatch] at hleft
  unfold handleInput
  rw [if_neg (by simp [hopen]), Connection.receive_whole h heq hframes hroom]
  dsimp only
  rw [pump, if_neg (by simp [hopen, hidle]), hnext]
  dsimp only
  unfold consumed at hdispatch
  rw [hdispatch]
  dsimp only
  rw [pump_of_nil now hleft]
  rfl

theorem emits_handleInput {s' : Secc} {now : Instant} {evs : List Event}
    (h : s.handleInput codec now data = (.ok (), s')) (hevents : s'.events = s.events ++ evs) :
    s.emits codec (.handleInput now data) = evs := by
  rw [emits, show s.call codec (.handleInput now data) = s' from congrArg Prod.snd h, hevents]
  exact List.drop_left

variable (codec) in
/-- Nothing on its way, nothing to read. -/
theorem reads_nothing {rest : List UInt8} (now : Instant) (hframes : s.conn.frames = [])
    (h : s.conn.rx ++ data ++ rest = []) :
    s.call codec (.handleInput now data) = s ∧ s.emits codec (.handleInput now data) = []
      ∧ data = [] ∧ rest = [] := by
  obtain ⟨hfront, hrest⟩ := List.append_eq_nil_iff.mp h
  obtain ⟨hrx, hdata⟩ := List.append_eq_nil_iff.mp hfront
  subst hdata
  have hread := handleInput_nil codec now hrx hframes
  exact ⟨congrArg Prod.snd hread, emits_handleInput hread (List.append_nil _).symm, rfl, hrest⟩

/-- **What reading does to a message on its way.** Part of it is missing still, and nothing is to be
seen of the call; or this was the last of it. -/
theorem reads_cases {rest : List UInt8} (now : Instant) (hopen : s.closed = false)
    (h : Frames codec s.conn.maxPayloadLen m frame payload) (hframes : s.conn.frames = [])
    (heq : s.conn.rx ++ data ++ rest = frame) :
    ((s.call codec (.handleInput now data)).core = s.core
        ∧ (s.call codec (.handleInput now data)).conn.rx = s.conn.rx ++ data
        ∧ (s.call codec (.handleInput now data)).conn.tx = s.conn.tx
        ∧ s.emits codec (.handleInput now data) = [])
      ∨ (rest = [] ∧ s.conn.rx ++ data = frame) := by
  by_cases hrest : rest = []
  · rw [hrest, List.append_nil] at heq
    exact .inr ⟨hrest, heq⟩
  · have hread := handleInput_part now hopen h hframes heq hrest
    have hcall : s.call codec (.handleInput now data) = _ := congrArg Prod.snd hread
    refine .inl ⟨by rw [hcall]; rfl, by rw [hcall], by rw [hcall], ?_⟩
    exact emits_handleInput hread (List.append_nil _).symm

end Reading

end Secc

/-! ## Both

The interleavings, and the rule for what they keep. Whatever a move does, it is one of the few
cases of `Records`, so a result about the link is proved move by move. -/

/-- **The two drivers on one cable.** The calls the vehicle has made, the calls the station has
made, and the bytes on their way from the one to the other and back; `answers` says what the
station's application may answer with, after the calls it has made. -/
inductive Link (codec : Codec) (vehicle : EvccConfig) (station : SeccConfig)
    (answers : List Secc.Call → Message → Prop) :
    List Evcc.Call → List Secc.Call → List UInt8 → List UInt8 → Prop where
  | new : Link codec vehicle station answers [] [] [] []
  | vehicleCalls {vs : List Evcc.Call} {ss : List Secc.Call} {up down : List UInt8}
      (c : Evcc.Call) (before : Link codec vehicle station answers vs ss up down)
      (h : (Evcc.after codec vehicle vs).Local c) :
      Link codec vehicle station answers (vs ++ [c]) ss up down
  | vehicleTransmits {vs : List Evcc.Call} {ss : List Secc.Call} {up down : List UInt8}
      (before : Link codec vehicle station answers vs ss up down) :
      Link codec vehicle station answers (vs ++ [.takeTransmit]) ss
        (up ++ (Evcc.after codec vehicle vs).takeTransmit.1) down
  | vehicleReads {vs : List Evcc.Call} {ss : List Secc.Call} {up down : List UInt8}
      (now : Instant) (data : List UInt8)
      (before : Link codec vehicle station answers vs ss up (data ++ down)) :
      Link codec vehicle station answers (vs ++ [.handleInput now data]) ss up down
  | stationCalls {vs : List Evcc.Call} {ss : List Secc.Call} {up down : List UInt8}
      (c : Secc.Call) (before : Link codec vehicle station answers vs ss up down)
      (h : (Secc.after codec station ss).Local c)
      (hanswers : ∀ now response, c = .respond now response → answers ss response) :
      Link codec vehicle station answers vs (ss ++ [c]) up down
  | stationTransmits {vs : List Evcc.Call} {ss : List Secc.Call} {up down : List UInt8}
      (before : Link codec vehicle station answers vs ss up down) :
      Link codec vehicle station answers vs (ss ++ [.takeTransmit]) up
        (down ++ (Secc.after codec station ss).takeTransmit.1)
  | stationReads {vs : List Evcc.Call} {ss : List Secc.Call} {up down : List UInt8}
      (now : Instant) (data : List UInt8)
      (before : Link codec vehicle station answers vs ss (data ++ up) down) :
      Link codec vehicle station answers vs (ss ++ [.handleInput now data]) up down

/-- What there is to keep, from a state of the link to the next: of the record of the vehicle, the
events of the station and the responses it has queued, their cores, and the bytes between them,
those each side has buffered included. A call of the application's keeps it if nothing can be seen
of it, and so does moving bytes from a buffer to the channel; what is left to look at is a message
that goes out, and input. -/
structure Link.Records (codec : Codec) (vehicle : EvccConfig) (station : SeccConfig)
    (answers : List Secc.Call → Message → Prop)
    (P : List Evcc.Act → List Secc.Event → List Message → Evcc → Secc → List UInt8 → List UInt8 →
      Prop) : Prop where
  start : ∀ {log evs given s u d frame payload} (e : Evcc), P log evs given e.core s u d →
    e.outstanding = none → e.flow = none → e.closed = false →
    Frames codec e.conn.maxPayloadLen (.appProtocolReq (Evcc.offered e.config)) frame payload →
    P (log ++ [.sent (.appProtocolReq (Evcc.offered e.config))]) evs given
      { e.core with
        offer := some (Evcc.offered e.config)
        outstanding := some "supportedAppProtocolReq" } s (u ++ frame) d
  request : ∀ {log evs given s u d frame payload flow flow'} (e : Evcc) (m : Message),
    P log evs given e.core s u d → e.closed = false → e.outstanding = none → m.isRequest = true →
    e.flow = some flow → flow.accept (m.setSessionId e.sessionId).2 = (.ok (), flow') →
    Frames codec e.conn.maxPayloadLen (m.setSessionId e.sessionId).2 frame payload →
    P (log ++ [.sent (m.setSessionId e.sessionId).2]) evs given
      { e.core with flow := some flow', outstanding := some m.name } s (u ++ frame) d
  respond : ∀ {log e x rest} (ss : List Secc.Call) (now : Instant) (response : Message),
    P log (Secc.emitted codec station ss) (Secc.queued codec station ss) e
      (Secc.after codec station ss).core ((Secc.after codec station ss).conn.rx ++ rest)
      (x ++ (Secc.after codec station ss).conn.tx) →
    (Secc.after codec station ss).outstanding ≠ none → answers ss response →
    P log (Secc.emitted codec station (ss ++ [.respond now response]))
      (Secc.queued codec station (ss ++ [.respond now response])) e
      (Secc.after codec station (ss ++ [.respond now response])).core
      ((Secc.after codec station (ss ++ [.respond now response])).conn.rx ++ rest)
      (x ++ (Secc.after codec station (ss ++ [.respond now response])).conn.tx)
  vehicleReads : ∀ {log evs given s x rest} (e : Evcc) (now : Instant) (data : List UInt8),
    P log evs given e.core s (x ++ e.conn.tx) (e.conn.rx ++ data ++ rest) →
    P (log ++ e.logs codec (.handleInput now data)) evs given
      (e.call codec (.handleInput now data)).core s
      (x ++ (e.call codec (.handleInput now data)).conn.tx)
      ((e.call codec (.handleInput now data)).conn.rx ++ rest)
  stationReads : ∀ {log evs given e x rest} (s : Secc) (now : Instant) (data : List UInt8),
    P log evs given e s.core (s.conn.rx ++ data ++ rest) (x ++ s.conn.tx) →
    P log (evs ++ s.emits codec (.handleInput now data)) given e
      (s.call codec (.handleInput now data)).core
      ((s.call codec (.handleInput now data)).conn.rx ++ rest)
      (x ++ (s.call codec (.handleInput now data)).conn.tx)

/-- **The rule for the link**: what holds of two new drivers and is kept holds of them however the
link is run. Induction on the interleaving. -/
theorem Link.recorded {codec : Codec} {vehicle : EvccConfig} {station : SeccConfig}
    {answers : List Secc.Call → Message → Prop}
    {P : List Evcc.Act → List Secc.Event → List Message → Evcc → Secc → List UInt8 → List UInt8 →
      Prop}
    (keeps : Records codec vehicle station answers P)
    (new : P [] [] [] (Evcc.new vehicle).core (Secc.new station).core [] [])
    {vs : List Evcc.Call} {ss : List Secc.Call} {up down : List UInt8}
    (h : Link codec vehicle station answers vs ss up down) :
    P (Evcc.history codec vehicle vs) (Secc.emitted codec station ss)
      (Secc.queued codec station ss) (Evcc.after codec vehicle vs).core
      (Secc.after codec station ss).core
      ((Secc.after codec station ss).conn.rx ++ up ++ (Evcc.after codec vehicle vs).conn.tx)
      ((Evcc.after codec vehicle vs).conn.rx ++ down ++ (Secc.after codec station ss).conn.tx) := by
  -- induction on the interleaving; what a move carries is cut off one queue and put behind another
  induction h with
  | new => exact new
  | vehicleCalls c before hlocal ih =>
    rw [Evcc.history_concat, Evcc.after_concat]
    -- a call that moves nothing, the offer, or a request
    rcases Evcc.local_cases codec hlocal with hunmoved |
      ⟨now, frame, payload, -, hidle, hflow, hopen, hframes, hcore, hrx, htx, hlogs⟩ |
      ⟨now, m, flow, flow', frame, payload, -, hopen, hidle, hreq, hflow, haccept, hframes, hcore,
        hrx, htx, hlogs⟩
    · rw [hunmoved.logs, hunmoved.core, hunmoved.rx, hunmoved.tx, List.append_nil]
      exact ih
    · rw [hlogs, hcore, hrx, htx, ← List.append_assoc]
      exact keeps.start _ ih hidle hflow hopen hframes
    · rw [hlogs, hcore, hrx, htx, ← List.append_assoc]
      exact keeps.request _ m ih hopen hidle hreq hflow haccept hframes
  -- transmitting takes bytes from the connection to the wire: the three in a row are the same
  | @vehicleTransmits vs ss up down before ih =>
    have hlogs : (Evcc.after codec vehicle vs).logs codec .takeTransmit = [] :=
      Evcc.logs_of_sends rfl rfl
    rw [Evcc.history_concat, Evcc.after_concat, hlogs, List.append_nil]
    rw [List.append_assoc] at ih
    rw [← List.append_assoc, List.append_assoc, List.append_assoc]
    show P _ _ _ _ _ (_ ++ (_ ++ ((Evcc.after codec vehicle vs).conn.tx ++ []))) _
    rw [List.append_nil]
    exact ih
  | @vehicleReads vs ss up down now data before ih =>
    rw [← List.append_assoc, List.append_assoc _ down] at ih
    have hkept := keeps.vehicleReads _ now data ih
    rw [Evcc.history_concat, Evcc.after_concat, List.append_assoc _ down]
    exact hkept
  -- an answer that is owed is one of the cases of the rule; any other call of the station is not
  | @stationCalls vs ss up down c before hlocal hanswers ih =>
    by_cases hmoves : ∃ now response, c = .respond now response
        ∧ (Secc.after codec station ss).outstanding ≠ none
    · obtain ⟨now, response, rfl, howed⟩ := hmoves
      rw [List.append_assoc _ up] at ih
      have hkept := keeps.respond ss now response ih howed (hanswers now response rfl)
      rw [List.append_assoc _ up]
      exact hkept
    · have hidle : ∀ now response, c = .respond now response →
          (Secc.after codec station ss).outstanding = none := by
        intro now response hc
        by_contra howed
        exact hmoves ⟨now, response, hc, howed⟩
      have hunmoved := Secc.unmoved_of_idle codec hlocal hidle
      rw [Secc.emitted_concat, Secc.queued_concat, Secc.after_concat, hunmoved.core, hunmoved.rx,
        hunmoved.tx, hunmoved.emits, Secc.queues_of_idle codec c hidle, List.append_nil,
        List.append_nil]
      exact ih
  | @stationTransmits vs ss up down before ih =>
    have hemits : (Secc.after codec station ss).emits codec .takeTransmit = [] :=
      Secc.emits_of_events rfl
    have hqueues : (Secc.after codec station ss).queues codec .takeTransmit = [] := rfl
    rw [Secc.emitted_concat, Secc.queued_concat, Secc.after_concat, hemits, hqueues,
      List.append_nil, List.append_nil]
    show P _ _ _ _ _ _ (_ ++ (_ ++ (Secc.after codec station ss).conn.tx) ++ [])
    rw [List.append_nil, ← List.append_assoc]
    exact ih
  | @stationReads vs ss up down now data before ih =>
    rw [← List.append_assoc, List.append_assoc _ up] at ih
    have hkept := keeps.stationReads _ now data ih
    have hqueues : (Secc.after codec station ss).queues codec (.handleInput now data) = [] := rfl
    rw [Secc.emitted_concat, Secc.queued_concat, Secc.after_concat, hqueues, List.append_nil,
      List.append_assoc _ up]
    exact hkept

/-- What there is to keep where the responses that are queued do not matter. -/
structure Link.Keeps (codec : Codec) (vehicle : EvccConfig) (station : SeccConfig)
    (answers : List Secc.Call → Message → Prop)
    (P : List Evcc.Act → List Secc.Event → Evcc → Secc → List UInt8 → List UInt8 → Prop) :
    Prop where
  start : ∀ {log evs s u d frame payload} (e : Evcc), P log evs e.core s u d →
    e.outstanding = none → e.flow = none → e.closed = false →
    Frames codec e.conn.maxPayloadLen (.appProtocolReq (Evcc.offered e.config)) frame payload →
    P (log ++ [.sent (.appProtocolReq (Evcc.offered e.config))]) evs
      { e.core with
        offer := some (Evcc.offered e.config)
        outstanding := some "supportedAppProtocolReq" } s (u ++ frame) d
  request : ∀ {log evs s u d frame payload flow flow'} (e : Evcc) (m : Message),
    P log evs e.core s u d → e.closed = false → e.outstanding = none → m.isRequest = true →
    e.flow = some flow → flow.accept (m.setSessionId e.sessionId).2 = (.ok (), flow') →
    Frames codec e.conn.maxPayloadLen (m.setSessionId e.sessionId).2 frame payload →
    P (log ++ [.sent (m.setSessionId e.sessionId).2]) evs
      { e.core with flow := some flow', outstanding := some m.name } s (u ++ frame) d
  respond : ∀ {log e x rest} (ss : List Secc.Call) (now : Instant) (response : Message),
    P log (Secc.emitted codec station ss) e (Secc.after codec station ss).core
      ((Secc.after codec station ss).conn.rx ++ rest)
      (x ++ (Secc.after codec station ss).conn.tx) →
    (Secc.after codec station ss).outstanding ≠ none → answers ss response →
    P log (Secc.emitted codec station (ss ++ [.respond now response])) e
      (Secc.after codec station (ss ++ [.respond now response])).core
      ((Secc.after codec station (ss ++ [.respond now response])).conn.rx ++ rest)
      (x ++ (Secc.after codec station (ss ++ [.respond now response])).conn.tx)
  vehicleReads : ∀ {log evs s x rest} (e : Evcc) (now : Instant) (data : List UInt8),
    P log evs e.core s (x ++ e.conn.tx) (e.conn.rx ++ data ++ rest) →
    P (log ++ e.logs codec (.handleInput now data)) evs
      (e.call codec (.handleInput now data)).core s
      (x ++ (e.call codec (.handleInput now data)).conn.tx)
      ((e.call codec (.handleInput now data)).conn.rx ++ rest)
  stationReads : ∀ {log evs e x rest} (s : Secc) (now : Instant) (data : List UInt8),
    P log evs e s.core (s.conn.rx ++ data ++ rest) (x ++ s.conn.tx) →
    P log (evs ++ s.emits codec (.handleInput now data)) e
      (s.call codec (.handleInput now data)).core
      ((s.call codec (.handleInput now data)).conn.rx ++ rest)
      (x ++ (s.call codec (.handleInput now data)).conn.tx)

/-- The rule for the link, there. -/
theorem Link.invariant {codec : Codec} {vehicle : EvccConfig} {station : SeccConfig}
    {answers : List Secc.Call → Message → Prop}
    {P : List Evcc.Act → List Secc.Event → Evcc → Secc → List UInt8 → List UInt8 → Prop}
    (keeps : Keeps codec vehicle station answers P)
    (new : P [] [] (Evcc.new vehicle).core (Secc.new station).core [] [])
    {vs : List Evcc.Call} {ss : List Secc.Call} {up down : List UInt8}
    (h : Link codec vehicle station answers vs ss up down) :
    P (Evcc.history codec vehicle vs) (Secc.emitted codec station ss)
      (Evcc.after codec vehicle vs).core (Secc.after codec station ss).core
      ((Secc.after codec station ss).conn.rx ++ up ++ (Evcc.after codec vehicle vs).conn.tx)
      ((Evcc.after codec vehicle vs).conn.rx ++ down ++ (Secc.after codec station ss).conn.tx) := by
  have hrecords : Records codec vehicle station answers fun log evs _ e s u d =>
      P log evs e s u d :=
    ⟨keeps.start, keeps.request, keeps.respond, keeps.vehicleReads, keeps.stationReads⟩
  exact h.recorded hrecords new

/-! ### All at once

Two shortcuts for the vectors, built of the moves there are. -/

section Whole

variable {codec : Codec} {vehicle : EvccConfig} {station : SeccConfig}
  {answers : List Secc.Call → Message → Prop} {vs : List Evcc.Call} {ss : List Secc.Call}

/-- The station reads all that the vehicle has to transmit, in one piece. -/
theorem Link.forth (now : Instant) (bytes : List UInt8)
    (h : Link codec vehicle station answers vs ss [] [])
    (heq : (Evcc.after codec vehicle vs).takeTransmit.1 = bytes) :
    Link codec vehicle station answers (vs ++ [.takeTransmit]) (ss ++ [.handleInput now bytes])
      [] [] := by
  have hsent := h.vehicleTransmits
  rw [heq, List.nil_append, ← List.append_nil bytes] at hsent
  exact hsent.stationReads now bytes

/-- The vehicle reads all that the station has to transmit, in one piece. -/
theorem Link.back (now : Instant) (bytes : List UInt8)
    (h : Link codec vehicle station answers vs ss [] [])
    (heq : (Secc.after codec station ss).takeTransmit.1 = bytes) :
    Link codec vehicle station answers (vs ++ [.handleInput now bytes]) (ss ++ [.takeTransmit])
      [] [] := by
  have hsent := h.stationTransmits
  rw [heq, List.nil_append, ← List.append_nil bytes] at hsent
  exact hsent.vehicleReads now bytes

end Whole

end Iso15118
