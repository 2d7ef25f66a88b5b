import Iso15118.Drivers.Handshake
import Iso15118.Secc.HalfDuplex
import Iso15118.Evcc.Answers

/-!
# The two drivers keep step

The vehicle moves its flow when it sends a request, the station when it reads it; a failure latches
the station's when it answers and the vehicle's when it reads the answer; and each decides for
itself that the session is over. On a link that loses nothing, with a station whose application
answers what it is asked, they still end up in the same place: whenever nothing is outstanding the
two flows are one flow, neither side has seen a fault and the station has refused nothing.

It takes a session id both know. An ISO 15118-2 answer may travel outside `V2G_Message`, and a
`SessionSetupRes` that does has no header to bring the id in: the vehicle goes on without it, and
its next request is refused. And a failure has to reach the vehicle: the station's flow is told of
it before it turns out too long to be sent. **`drivers_keep_step`** is about the runs in which
neither happens, **`bare_sessionSetup_parts_them`** is one of the first kind.

The proof is an invariant of the link, **`Joined`**. It has three parts: what each driver holds by
itself and both share (`Met`), how far the exchange under way has got (`Exchange`: at rest, asked,
handed over, answered), and that nothing is on record that would go against the session (`Sound`).
Each of the four moves that take an exchange on has a lemma of its own; no other move touches what
the stage depends on. The handshake is followed separately, and what it ends in is the first stage
at rest.
-/

namespace Iso15118

open Iso15118.Lib Iso15118.Session
open Iso15118.Message (Codec Outcome)
open Iso15118.Session.Connection (Frames)

/-! ## One message

What the two sides make of a message that is as it should be: the station accepts what the
vehicle's flow has let out, and the vehicle takes the answer. -/

theorem Message.isRequest_of_answers {m : Message} {request : String}
    (h : m.answers request = true) : m.isRequest = false := by
  obtain ⟨stem, -, hname⟩ := Message.answers_iff.mp h
  unfold Message.isRequest
  rw [hname]
  exact Message.endsWith_req_append_res stem

theorem Message.SameButHeader.answers {m m' : Message} (h : m.SameButHeader m') (request : String) :
    m'.answers request = m.answers request := by
  unfold Message.answers
  rw [h.name]

/-- An answer out of the message set of a request of the session is of its generation. -/
theorem Message.generation_of_reply {m r : Message} {flow flow' : Flow}
    (haccept : flow.accept r = (.ok (), flow')) (htype : m.payloadType = r.payloadType)
    (hpairs : m.answers r.name = true) (hreq : m.isRequest = false) :
    m.generation = some flow.protocol ∧ ∀ res, m ≠ .appProtocolRes res := by
  have hgen : r.generation = some flow.protocol := Flow.generation_of_accept haccept
  -- the payload type is the generation's, but for the handshake, which has the first one's
  have hof : ∀ {m : Message}, m.generation ≠ none →
      m.generation = if m.payloadType = .exiEncodedV2gMessage then some .iso2 else some .iso20 := by
    intro m hm
    cases m <;> first | rfl | exact absurd rfl hm
  have happ : ∀ res, m ≠ .appProtocolRes res := by
    rintro res rfl
    have hiso2 : r.generation = some .iso2 := by
      rw [hof (by rw [hgen]; exact Option.some_ne_none _), ← htype]
      rfl
    have hprotocol : flow.protocol = .iso2 := Option.some.inj (hgen.symm.trans hiso2)
    obtain ⟨stem, hrname, hname⟩ := Message.answers_iff.mp hpairs
    have hstem : stem = "supportedAppProtocol" := by
      have hres : "supportedAppProtocol" ++ "Res" = stem ++ "Res" :=
        (by decide : "supportedAppProtocol" ++ "Res" = "supportedAppProtocolRes").trans hname
      exact ((String.append_left_inj "Res").mp hres).symm
    rw [hstem] at hrname
    exact Flow.name_ne_of_accept_iso2 haccept hprotocol (hrname.trans (by decide))
  refine ⟨?_, happ⟩
  rw [← hgen, hof (Evcc.generation_ne_none happ hreq),
    hof (m := r) (by rw [hgen]; exact Option.some_ne_none _), htype]

/-- The station takes over a request its flow accepts, and surfaces it. -/
theorem Secc.dispatch_accepted (codec : Codec) {s : Secc} {m : Message} {flow flow' : Flow}
    (now : Instant) (hopen : s.closed = false) (hreq : m.isRequest = true)
    (hid : s.established = true → s.carriesTheSessionId m = true) (hflow : s.flow = some flow)
    (haccept : flow.accept m = (.ok (), flow')) :
    ∃ due phase timers, s.dispatch codec now m
      = (.ok (),
        { s with
          timers := timers
          flow := some flow'
          established := s.established || m.name = "SessionSetupReq"
          outstanding := some ⟨m.name, false, due⟩
          phase := phase
          events := s.events ++ [.request m] }) := by
  obtain ⟨evs, h⟩ := dispatched_dispatch codec now m hopen
  generalize s.dispatch codec now m = out at h
  cases h with
  -- every outcome but `accepted` goes against the open session, the id or the flow
  | fault e timers hfaulty =>
    cases hfaulty with
    | handshakeFailed req =>
      have hgen := Flow.generation_of_accept haccept
      cases hgen
    | notARequest h =>
      rw [h] at hreq
      cases hreq
    | beforeHandshake h =>
      rw [hflow] at h
      cases h
    | unread hflow' h =>
      rw [hflow] at hflow'
      cases hflow'
      rcases flow.accept_cases m with ⟨-, h'⟩ | ⟨hreads, -, -⟩ | ⟨hreads, -, -⟩
      · rw [haccept] at h'
        cases h'
      · rw [h] at hreads
        cases hreads
      · rw [h] at hreads
        cases hreads
  -- no handshake, for there is a flow
  | rejected req frame timers hm hnone =>
    rw [hflow] at hnone
    cases hnone
  | agreed req protocol set flow frame timers hm hnone hnew hsetup =>
    rw [hflow] at hnone
    cases hnone
  -- the id is the session's
  | unknown due timers hm hreq' hest hid' =>
    rw [hid hest] at hid'
    cases hid'
  -- accepted, by the one flow there is
  | accepted flow₁ flow₁' due phase timers hreq' hid' hflow' haccept' hsetup =>
    rw [hflow] at hflow'
    cases hflow'
    rw [haccept] at haccept'
    cases haccept'
    exact ⟨due, phase, timers, rfl⟩
  -- and so not refused
  | refused flow₁ e event due overdue timers hreq' hid' hflow' haccept' hevent =>
    rw [hflow] at hflow'
    cases hflow'
    rw [haccept] at haccept'
    cases haccept'

theorem Evcc.isSome_ending (flow : Option Flow) :
    (ending flow).isSome = (flow.any Flow.isPaused || flow.any Flow.isFinished) := by
  cases flow with
  | none => rfl
  | some flow =>
    simp only [ending, Option.bind_some, Option.any_some]
    split
    · next h => simp [h]
    · next h =>
      split
      · next h' => simp [h']
      · next h' => simp [h, h']

/-- The station ends a session when the vehicle does. -/
theorem Secc.settle_eq {s : Secc} (now : Instant) (hopen : s.closed = false) :
    ∃ timers evs, s.settle now
        = { s with
            closed := (Evcc.ending s.flow).isSome
            timers := timers
            events := s.events ++ evs }
      ∧ ∀ event ∈ evs, event = .closed .paused ∨ event = .closed .normal := by
  unfold settle
  rw [Evcc.isSome_ending]
  by_cases hpaused : s.flow.any Flow.isPaused = true
  · rw [if_pos hpaused, hpaused, close_of_open hopen]
    exact ⟨_, _, rfl, fun event hevent => .inl (List.mem_singleton.mp hevent)⟩
  · rw [if_neg hpaused, (Bool.not_eq_true _).mp hpaused]
    by_cases hfinished : s.flow.any Flow.isFinished = true
    · rw [if_pos hfinished, hfinished, close_of_open hopen]
      exact ⟨_, _, rfl, fun event hevent => .inr (List.mem_singleton.mp hevent)⟩
    · rw [if_neg hfinished, (Bool.not_eq_true _).mp hfinished, if_neg (by simp [hopen])]
      refine ⟨s.timers.arm .sequence now s.config.sequenceTimeout, [], ?_, fun _ h => by cases h⟩
      rw [List.append_nil, Bool.or_false, ← hopen]

/-- The station queues the answer to the request it has surfaced, and is done with the session when
its flow is. -/
theorem Secc.respond_of_owed {codec : Codec} {s : Secc} {o : Outstanding} {response : Message}
    {frame payload : List UInt8} (now : Instant) (hopen : s.closed = false)
    (howed : s.outstanding = some o) (hreq : response.isRequest = false)
    (hpairs : response.answers o.name = true) (hid : s.config.sessionId.isNone = false)
    (hframes : s.conn.frames = [])
    (h : Frames codec s.conn.maxPayloadLen (response.setSessionId s.config.sessionId).2 frame
      payload) :
    ∃ timers evs, s.respond codec now response
        = (.ok (),
          { s with
            flow := Evcc.told s.flow (response.setSessionId s.config.sessionId).2
            conn := { s.conn with tx := s.conn.tx ++ frame }
            outstanding := none
            closed :=
              (Evcc.ending (Evcc.told s.flow (response.setSessionId s.config.sessionId).2)).isSome
            timers := timers
            events := s.events ++ evs })
      ∧ ∀ event ∈ evs, event = .closed .paused ∨ event = .closed .normal := by
  -- every check passes, and the frame goes out
  have hanswer : s.answer codec response
      = (.ok (),
        { s with
          flow := Evcc.told s.flow (response.setSessionId s.config.sessionId).2
          conn := { s.conn with tx := s.conn.tx ++ frame }
          outstanding := none }) := by
    unfold answer
    rw [if_neg (by simp [hreq])]
    split
    · next h =>
      rw [howed] at h
      cases h
    · next o' howed' =>
      rw [howed] at howed'
      cases howed'
      rw [if_neg (by simp [hpairs])]
      dsimp only
      rw [if_neg (by simp [hid])]
      have htold :
          (if (response.setSessionId s.config.sessionId).2.outcome.any Outcome.isFailure = true then
            { s with flow := s.flow.map Flow.recordFailure } else s)
          = { s with flow := Evcc.told s.flow (response.setSessionId s.config.sessionId).2 } := by
        unfold Evcc.told
        split <;> rfl
      rw [htold, Connection.send_of_frames (by exact h)]
  -- what it is followed by is the end of the session, or the wait for the next request
  obtain ⟨timers, evs, hsettle, hevs⟩ := settle_eq now
    (s := { s with
      flow := Evcc.told s.flow (response.setSessionId s.config.sessionId).2
      conn := { s.conn with tx := s.conn.tx ++ frame }
      outstanding := none }) hopen
  refine ⟨timers, evs, ?_, hevs⟩
  rw [respond, hanswer]
  dsimp only
  rw [hsettle, pump_of_nil now (by exact hframes)]
  rfl

/-- A response that reports no failure and cannot be sent leaves nothing behind. -/
theorem Secc.respond_unsent {codec : Codec} {s : Secc} {response : Message} (now : Instant)
    (hquiet : ¬ response.outcome.any Outcome.isFailure = true)
    (hunsent : ¬ ∃ frame payload, Frames codec s.conn.maxPayloadLen
      (response.setSessionId s.config.sessionId).2 frame payload) :
    (s.respond codec now response).2 = s := by
  have hanswer : ∃ error, s.answer codec response = (.error error, s) := by
    unfold answer
    split
    · exact ⟨_, rfl⟩
    · split
      · exact ⟨_, rfl⟩
      · split
        · exact ⟨_, rfl⟩
        · dsimp only
          split
          · exact ⟨_, rfl⟩
          · rw [(response.sameButHeader_setSessionId s.config.sessionId).outcome, if_neg hquiet]
            rcases s.conn.send_cases codec (response.setSessionId s.config.sessionId).2 with
              ⟨error, h⟩ | ⟨frame, -, h⟩
            · rw [h]
              exact ⟨_, rfl⟩
            · obtain ⟨frame', payload, hframes, -⟩ := Connection.frames_of_send h
              exact absurd ⟨frame', payload, hframes⟩ hunsent
  obtain ⟨error, hanswer⟩ := hanswer
  rw [respond, hanswer]

/-- An id that is not zero is taken over, and one that is the session's own is taken too. -/
theorem Evcc.checkSessionId_ok {e : Evcc} {m : Message} {id : SessionId}
    (hid : m.sessionId = none ∨ m.sessionId = some id) (hzero : id.isNone = false)
    (hest : e.established = true → e.sessionId = id) : ∃ e', e.checkSessionId m = .ok e' := by
  unfold checkSessionId
  rcases hid with hid | hid
  · rw [hid]
    exact ⟨_, rfl⟩
  · rw [hid]
    dsimp only
    split
    · rw [if_neg (by simp [hzero])]
      exact ⟨_, rfl⟩
    · next hestablished =>
      rw [if_neg (by simpa using (hest (by simpa using hestablished)).symm)]
      exact ⟨_, rfl⟩

theorem Evcc.fst_dispatch {e : Evcc} {m : Message} {expected : String} {id : SessionId}
    (now : Instant) (hans : Answers e m expected) (hm : ∀ res, m ≠ .appProtocolRes res)
    (hid : m.sessionId = none ∨ m.sessionId = some id) (hzero : id.isNone = false)
    (hest : e.established = true → e.sessionId = id) : (e.dispatch now m).1 = .ok () := by
  unfold dispatch
  rw [if_neg (by simp [hans.response]), hans.owed]
  dsimp only
  rw [if_neg (by simp [hans.pairs])]
  split
  · next res => exact absurd rfl (hm res)
  · obtain ⟨e', h⟩ := checkSessionId_ok (e := { e with
      timers := e.timers.disarm .message
      outstanding := none
      answeredAt := some now }) hid hzero hest
    rw [h]

/-- The vehicle takes the answer to its request, if the id in it is one it can take. -/
theorem Evcc.dispatch_answered {e : Evcc} {m : Message} {expected : String} {id : SessionId}
    (now : Instant) (hopen : e.closed = false) (hans : Answers e m expected)
    (hm : ∀ res, m ≠ .appProtocolRes res) (hid : m.sessionId = none ∨ m.sessionId = some id)
    (hzero : id.isNone = false) (hest : e.established = true → e.sessionId = id) :
    ∃ timers more id' est', e.dispatch now m
        = (.ok (),
          { e with
            timers := timers
            outstanding := none
            answeredAt := some now
            sessionId := id'
            established := est'
            flow := told e.flow m
            closed := (ending (told e.flow m)).isSome
            events := e.events ++ .response m :: more })
      ∧ Identified e m id' est'
      ∧ ∀ event ∈ more, (∀ m', event ≠ .response m') ∧ event ≠ .closed .fatal := by
  have hok := fst_dispatch now hans hm hid hzero hest
  obtain ⟨evs, h⟩ := dispatched_dispatch now m hopen
  generalize e.dispatch now m = out at h hok
  cases h with
  | fault error timers outstanding answeredAt => cases hok
  | rejected res set hm' hans' => exact absurd hm' (hm res)
  | agreed res protocol set flow hm' hans' hnew => exact absurd hm' (hm res)
  -- shown, and the session goes on
  | surfaced more timers hm' hans' hid' hmore hongoing hsetup hgoes =>
    refine ⟨timers, more, _, _, ?_, hid', fun event hevent => ?_⟩
    · rw [hgoes, Option.isSome_none, ← hopen]
    · rcases hmore with rfl | rfl
      · cases hevent
      · rw [List.mem_singleton.mp hevent]
        exact ⟨by simp, by simp⟩
  -- shown, and the session ends with it
  | ended why hm' hans' hid' hwhy =>
    refine ⟨e.timers.disarmAll, [.closed why], _, _, ?_, hid', fun event hevent => ?_⟩
    · rw [hwhy, Option.isSome_some]
    · rw [List.mem_singleton.mp hevent]
      refine ⟨by simp, fun hfatal => ?_⟩
      cases hfatal
      -- a flow ends in a pause or normally
      unfold ending at hwhy
      obtain ⟨flow, -, hflow⟩ := Option.bind_eq_some_iff.mp hwhy
      split at hflow
      · cases hflow
      · split at hflow
        · cases hflow
        · cases hflow

/-! ## What is asked of the two

The conditions, on the configurations and on the answers that the station's application gives. -/

/-- The two are configured for one another. -/
structure Fit (vehicle : EvccConfig) (station : SeccConfig) : Prop where
  security : vehicle.security = station.security
  maxPayloadLen : vehicle.maxPayloadLen = station.maxPayloadLen
  maxPendingFrames : vehicle.maxPendingFrames = station.maxPendingFrames
  sessionId : station.sessionId.isNone = false

/-- What the station's application answers with: a response to the request that was surfaced, out of
its message set, that can be encoded. -/
def Replies (codec : Codec) (station : SeccConfig) (ss : List Secc.Call) (response : Message) :
    Prop :=
  ∃ r, Secc.Surfaced codec station ss r ∧ response.payloadType = r.payloadType
    ∧ response.answers r.name = true
    ∧ ∃ payload, codec.toVec (response.setSessionId station.sessionId).2 = .ok payload

/-- What the station makes of a response can be put on the wire. -/
def Sendable (codec : Codec) (station : SeccConfig) (response : Message) : Prop :=
  ∃ frame payload, Frames codec station.maxPayloadLen (response.setSessionId station.sessionId).2
    frame payload

/-- Where the two could part: `SessionSetupReq` is answered with a session id, unless the vehicle
has named it already, and no failure is too long to be sent. -/
structure Introduces (codec : Codec) (vehicle : EvccConfig) (station : SeccConfig)
    (ss : List Secc.Call) (response : Message) : Prop where
  headed : ∀ r, Secc.Surfaced codec station ss r → r.name = "SessionSetupReq" →
    (response.setSessionId station.sessionId).1 = true ∨ vehicle.rejoin = some station.sessionId
  sendable : response.outcome.any Outcome.isFailure = true → Sendable codec station response

/-! ## The joint invariant

Between exchanges both flows are the same. While one is under way, each stage says how far the
one is ahead of the other, and the next message evens that out. -/

/-- What stays as it is of the vehicle's end. -/
structure Evcc.Plugged (vehicle : EvccConfig) (e : Evcc) : Prop where
  config : e.config = vehicle
  limit : e.conn.maxPayloadLen = vehicle.maxPayloadLen
  room : 0 < e.conn.maxPendingFrames
  frames : e.conn.frames = []

/-- What stays as it is of the station's end. -/
structure Secc.Plugged (station : SeccConfig) (s : Secc) : Prop where
  config : s.config = station
  limit : s.conn.maxPayloadLen = station.maxPayloadLen
  room : 0 < s.conn.maxPendingFrames
  frames : s.conn.frames = []

/-- What the two have in common at any time, once the handshake is over. -/
structure Met (vehicle : EvccConfig) (station : SeccConfig) (e : Evcc) (s : Secc) : Prop where
  evcc : e.Plugged vehicle
  secc : s.Plugged station
  protocol : e.conn.protocol = s.conn.protocol
  agrees : e.conn.protocol = e.flow.map Flow.protocol
  going : e.closed = false → e.flow.isSome = true
  named : e.sessionId = vehicle.rejoin.getD SessionId.none ∨ e.sessionId = station.sessionId
  established : e.established = true → e.sessionId = station.sessionId

/-- Where an exchange stands: nothing is asked, the request is on its way, the station's application
has it, the answer is on its way. -/
inductive Exchange (codec : Codec) (vehicle : EvccConfig) (station : SeccConfig)
    (evs : List Secc.Event) (e : Evcc) (s : Secc) : List UInt8 → List UInt8 → Prop where
  | rest (hidle : e.outstanding = none) (hidle' : s.outstanding = none) (hflow : e.flow = s.flow)
      (hclosed : e.closed = s.closed)
      (hknown : s.established = true → e.sessionId = station.sessionId) :
      Exchange codec vehicle station evs e s [] []
  | asked {r : Message} {flow flow' : Flow} {frame payload : List UInt8}
      (howed : e.outstanding = some r.name) (hidle' : s.outstanding = none)
      (hopen : e.closed = false) (hopen' : s.closed = false) (hreq : r.isRequest = true)
      (hflow : e.flow = some flow') (hflow' : s.flow = some flow)
      (haccept : flow.accept r = (.ok (), flow')) (hid : r.sessionId = some e.sessionId)
      (hknown : s.established = true → e.sessionId = station.sessionId)
      (h : Frames codec station.maxPayloadLen r frame payload) :
      Exchange codec vehicle station evs e s frame []
  | handed {r : Message} {flow flow' : Flow} {o : Secc.Outstanding}
      (howed : e.outstanding = some r.name) (howed' : s.outstanding = some o)
      (hname : o.name = r.name) (hopen : e.closed = false) (hopen' : s.closed = false)
      (hflow : e.flow = some flow') (hflow' : s.flow = some flow')
      (haccept : flow.accept r = (.ok (), flow'))
      (hlast : (Secc.surfaced evs).getLast? = some (.request r))
      (hknown : s.established = true →
        r.name = "SessionSetupReq" ∨ e.sessionId = station.sessionId) :
      Exchange codec vehicle station evs e s [] []
  | answered {r m : Message} {frame payload : List UInt8}
      (howed : e.outstanding = some r.name) (hidle' : s.outstanding = none)
      (hopen : e.closed = false) (hres : m.isRequest = false) (hpairs : m.answers r.name = true)
      (hm : ∀ res, m ≠ .appProtocolRes res) (hgen : m.generation = e.conn.protocol)
      (hid : m.sessionId = none ∨ m.sessionId = some station.sessionId)
      (hflow' : s.flow = Evcc.told e.flow m)
      (hclosed' : s.closed = (Evcc.ending (Evcc.told e.flow m)).isSome)
      (hknown : m.sessionId = some station.sessionId
        ∨ ((s.established = true ∨ r.name = "SessionSetupReq") →
          e.sessionId = station.sessionId))
      (h : Frames codec vehicle.maxPayloadLen m frame payload) :
      Exchange codec vehicle station evs e s [] frame

/-- What has been on record so far: no fault, no refusal, and no `SessionSetupRes` without the
id. -/
structure Sound (station : SeccConfig) (log : List Evcc.Act) (evs : List Secc.Event) (e : Evcc) :
    Prop where
  evcc : .event (.closed .fatal) ∉ log
  secc : .closed .fatal ∉ evs
  accepted : ∀ m code why, .refused m code why ∉ evs
  heard : (∃ m ∈ Evcc.responsesOf log, m.name = "SessionSetupRes") →
    e.sessionId = station.sessionId

/-- Both ends after the handshake. -/
structure Joined (codec : Codec) (vehicle : EvccConfig) (station : SeccConfig)
    (log : List Evcc.Act) (evs : List Secc.Event) (e : Evcc) (s : Secc) (u d : List UInt8) :
    Prop where
  met : Met vehicle station e s
  exchange : Exchange codec vehicle station evs e s u d
  sound : Sound station log evs e

section Steps

variable {codec : Codec} {vehicle : EvccConfig} {station : SeccConfig} {log : List Evcc.Act}
  {evs : List Secc.Event} {u d : List UInt8}

/-- With the handshake over, nothing is asked and the two hold the same flow, or none. -/
theorem Opened.joined {e : Evcc} {s : Secc} (h : Opened vehicle station log evs e s)
    (hfit : Fit vehicle station) : Joined codec vehicle station log evs e s [] [] := by
  cases h with
  | rejected hlog hevs he hs hnone =>
    rw [he, hs, hlog, hevs]
    refine ⟨⟨⟨rfl, rfl, ?_, rfl⟩, ⟨rfl, rfl, ?_, rfl⟩, rfl, rfl, ?_, .inl rfl, ?_⟩,
      .rest rfl rfl rfl rfl ?_, ⟨by simp, by simp, by simp, ?_⟩⟩
    · exact Nat.lt_of_lt_of_le Nat.zero_lt_one (Nat.le_max_right ..)
    · exact Nat.lt_of_lt_of_le Nat.zero_lt_one (Nat.le_max_right ..)
    · exact fun h => by cases h
    · exact fun h => by cases h
    · exact fun h => by cases h
    · rintro ⟨m, hm, -⟩
      cases hm
  | agreed hlog hevs he hs hsome hnew hnew' =>
    rw [hfit.security, hnew] at hnew'
    cases hnew'
    rw [he, hs, hlog, hevs]
    refine ⟨⟨⟨rfl, rfl, ?_, rfl⟩, ⟨rfl, rfl, ?_, rfl⟩, rfl, ?_, fun _ => rfl, .inl rfl, ?_⟩,
      .rest rfl rfl rfl rfl ?_, ⟨by simp, by simp, by simp, ?_⟩⟩
    · exact Nat.lt_of_lt_of_le Nat.zero_lt_one (Nat.le_max_right ..)
    · exact Nat.lt_of_lt_of_le Nat.zero_lt_one (Nat.le_max_right ..)
    · exact congrArg some (Flow.protocol_of_new hnew).symm
    · exact fun h => by cases h
    · exact fun h => by cases h
    · rintro ⟨m, hm, -⟩
      cases hm

/-- A request goes out where nothing was asked. -/
theorem Joined.request {s : Secc} {frame payload : List UInt8} {flow flow' : Flow} (e : Evcc)
    (m : Message) (hfit : Fit vehicle station)
    (h : Joined codec vehicle station log evs e.core s u d) (hopen : e.closed = false)
    (hidle : e.outstanding = none) (hreq : m.isRequest = true) (hflow : e.flow = some flow)
    (haccept : flow.accept (m.setSessionId e.sessionId).2 = (.ok (), flow'))
    (hframes : Frames codec e.conn.maxPayloadLen (m.setSessionId e.sessionId).2 frame payload) :
    Joined codec vehicle station (log ++ [.sent (m.setSessionId e.sessionId).2]) evs
      { e.core with flow := some flow', outstanding := some m.name } s (u ++ frame) d := by
  obtain ⟨hmet, hexchange, hsound⟩ := h
  have hstamp := m.sameButHeader_setSessionId e.sessionId
  refine ⟨⟨⟨hmet.evcc.config, hmet.evcc.limit, hmet.evcc.room, hmet.evcc.frames⟩, hmet.secc,
    hmet.protocol, ?_, fun _ => rfl, hmet.named, hmet.established⟩, ?_, ?_⟩
  -- both sides are still of one generation
  · show e.conn.protocol = some flow'.protocol
    rw [Flow.protocol_of_accept haccept, show e.conn.protocol = _ from hmet.agrees]
    show e.flow.map _ = _
    rw [hflow]
    rfl
  · cases hexchange with
    -- at rest there is nothing in flight, and the request is now
    | rest _ hidle' hflow' hclosed hknown =>
      have hlimit : e.conn.maxPayloadLen = station.maxPayloadLen :=
        hmet.evcc.limit.trans hfit.maxPayloadLen
      rw [hlimit] at hframes
      have hreq' : (m.setSessionId e.sessionId).2.isRequest = true := by
        unfold Message.isRequest
        rw [hstamp.name]
        exact hreq
      have hheader : (m.setSessionId e.sessionId).1 = true := by
        rw [Flow.accept_setSessionId] at haccept
        exact Flow.setSessionId_of_accept haccept e.sessionId
      have hid : (m.setSessionId e.sessionId).2.sessionId = some e.sessionId := by
        rw [Message.sessionId_setSessionId, if_pos hheader]
      exact .asked (congrArg some hstamp.name.symm) hidle' hopen (hclosed.symm.trans hopen) hreq'
        rfl (hflow'.symm.trans hflow) haccept hid hknown hframes
    -- everywhere else in an exchange the vehicle is owed an answer
    | asked howed _ _ _ _ _ _ _ _ _ _ =>
      rw [show e.core.outstanding = none from hidle] at howed
      cases howed
    | handed howed _ _ _ _ _ _ _ _ _ =>
      rw [show e.core.outstanding = none from hidle] at howed
      cases howed
    | answered howed _ _ _ _ _ _ _ _ _ _ _ =>
      rw [show e.core.outstanding = none from hidle] at howed
      cases howed
  -- nothing has been heard by it, so the record is as sound as before
  · refine ⟨by simpa using hsound.evcc, hsound.secc, hsound.accepted, ?_⟩
    rintro ⟨m', hm', hname⟩
    rw [Evcc.responsesOf_append, List.mem_append] at hm'
    rcases hm' with hm' | hm'
    · exact hsound.heard ⟨m', hm', hname⟩
    · cases hm'

/-- The station answers what its application has been handed. -/
theorem Joined.respond {e : Evcc} {x rest : List UInt8} (ss : List Secc.Call) (now : Instant)
    (response : Message) (hfit : Fit vehicle station)
    (h : Joined codec vehicle station log (Secc.emitted codec station ss) e
      (Secc.after codec station ss).core ((Secc.after codec station ss).conn.rx ++ rest)
      (x ++ (Secc.after codec station ss).conn.tx))
    (howed : (Secc.after codec station ss).outstanding ≠ none)
    (hreplies : Replies codec station ss response)
    (hintroduces : Introduces codec vehicle station ss response) :
    Joined codec vehicle station log (Secc.emitted codec station (ss ++ [.respond now response])) e
      (Secc.after codec station (ss ++ [.respond now response])).core
      ((Secc.after codec station (ss ++ [.respond now response])).conn.rx ++ rest)
      (x ++ (Secc.after codec station (ss ++ [.respond now response])).conn.tx) := by
  -- the answer is of the set of the request, and answers it
  obtain ⟨r, hr, htype, hpairs, -⟩ := hreplies
  have hheaded := hintroduces.headed r hr
  have hsendable := hintroduces.sendable
  unfold Secc.Surfaced at hr
  rw [Secc.emitted_concat, Secc.after_concat]
  generalize Secc.after codec station ss = s at h howed ⊢
  generalize Secc.emitted codec station ss = evs at h hr ⊢
  have hconfig : s.config = station := h.met.secc.config
  have hlimit : s.conn.maxPayloadLen = station.maxPayloadLen := h.met.secc.limit
  -- either the answer goes out, and the exchange moves on, or nothing does
  by_cases hsends : Sendable codec station response
  · obtain ⟨frame, payload, hframes⟩ := hsends
    obtain ⟨hmet, hexchange, hsound⟩ := h
    generalize hu : s.conn.rx ++ rest = u at hexchange
    generalize hd : x ++ s.conn.tx = d at hexchange
    cases hexchange with
    -- something is outstanding only where the application has been handed the request
    | rest _ hidle' _ _ _ => exact absurd hidle' howed
    | asked _ hidle' _ _ _ _ _ _ _ _ _ => exact absurd hidle' howed
    | answered _ hidle' _ _ _ _ _ _ _ _ _ _ => exact absurd hidle' howed
    | @handed r' flow flow' o howedby howed' hname hopen hopen' hflow hflow' haccept hlast hknown =>
      rw [hr] at hlast
      cases hlast
      have howed' : s.outstanding = some o := howed'
      have hopen' : s.closed = false := hopen'
      have hflow' : s.flow = some flow' := hflow'
      have hres : response.isRequest = false := Message.isRequest_of_answers hpairs
      have hstamp := response.sameButHeader_setSessionId station.sessionId
      have hid := response.sessionId_setSessionId station.sessionId
      have hpairs' : (response.setSessionId station.sessionId).2.answers r.name = true :=
        (hstamp.answers r.name).trans hpairs
      have hres' : (response.setSessionId station.sessionId).2.isRequest = false :=
        Message.isRequest_of_answers hpairs'
      -- stamping the session id changes neither the set nor what is answered
      obtain ⟨hgen, hm⟩ := Message.generation_of_reply haccept (hstamp.payloadType.trans htype)
        hpairs' hres'
      obtain ⟨timers, more, hrespond, hmore⟩ := Secc.respond_of_owed (s := s) now hopen' howed' hres
        (by rw [hname]; exact hpairs) (by rw [hconfig]; exact hfit.sessionId) hmet.secc.frames
        (by rw [hconfig, hlimit]; exact hframes)
      rw [hconfig] at hrespond
      have hcall : s.call codec (.respond now response) = _ := congrArg Prod.snd hrespond
      have hemits : s.emits codec (.respond now response) = more := by
        rw [Secc.emits, hcall]
        exact List.drop_left
      -- nothing was on its way in either direction, so the frame is all there is
      obtain ⟨hrx, hrest⟩ := List.append_eq_nil_iff.mp hu
      obtain ⟨hx, htx⟩ := List.append_eq_nil_iff.mp hd
      have hagrees := hmet.agrees
      rw [hemits, hcall, hrest, hx]
      refine ⟨⟨hmet.evcc, ⟨rfl, hlimit, hmet.secc.room, hmet.secc.frames⟩, hmet.protocol,
        hmet.agrees, hmet.going, hmet.named, hmet.established⟩, ?_, ?_⟩
      · show Exchange _ _ _ _ _ _ (s.conn.rx ++ []) ([] ++ (s.conn.tx ++ frame))
        rw [hrx, htx]
        have hfits : Frames codec vehicle.maxPayloadLen
            (response.setSessionId station.sessionId).2 frame payload := by
          rw [hfit.maxPayloadLen]
          exact hframes
        -- whatever the station has set in its own flow, the vehicle will set in its
        refine .answered howedby rfl hopen hres' hpairs' hm ?_ ?_ ?_ ?_ ?_ hfits
        · rw [hgen, hmet.agrees, hflow, Option.map_some, Flow.protocol_of_accept haccept]
        · rw [hid]
          split
          · exact .inr rfl
          · exact .inl rfl
        · show Evcc.told s.flow _ = _
          rw [hflow', hflow]
        · show (Evcc.ending (Evcc.told s.flow _)).isSome = _
          rw [hflow', hflow]
        · by_cases hstamped : (response.setSessionId station.sessionId).1 = true
          · rw [hid, if_pos hstamped]
            exact .inl rfl
          · -- there is no header to bring the id in: the vehicle has to know it
            have hrejoin : r.name = "SessionSetupReq" → e.sessionId = station.sessionId := by
              intro hsetup
              have hnamed := (hheaded hsetup).resolve_left hstamped
              rcases hmet.named with h | h
              · rw [h, hnamed]
                rfl
              · exact h
            right
            rintro (hest | hsetup)
            · rcases hknown hest with hsetup | h
              · exact hrejoin hsetup
              · exact h
            · exact hrejoin hsetup
      -- what the answer is followed by is at most the end of the session
      · have hquiet : ∀ event ∈ more, event ≠ .closed .fatal ∧ ∀ m code why,
            event ≠ .refused m code why := by
          intro event hevent
          rcases hmore event hevent with rfl | rfl
          · exact ⟨by simp, by simp⟩
          · exact ⟨by simp, by simp⟩
        refine ⟨hsound.evcc, ?_, ?_, hsound.heard⟩
        · intro hmem
          rcases List.mem_append.mp hmem with hmem | hmem
          · exact hsound.secc hmem
          · exact (hquiet _ hmem).1 rfl
        · intro m code why hmem
          rcases List.mem_append.mp hmem with hmem | hmem
          · exact hsound.accepted m code why hmem
          · exact (hquiet _ hmem).2 m code why rfl
  · -- nothing went out, and nothing was reported
    have hsame : s.call codec (.respond now response) = s := by
      refine Secc.respond_unsent now (fun hfailed => hsends (hsendable hfailed)) ?_
      rw [hconfig, hlimit]
      exact hsends
    rw [Secc.emits_of_events (by rw [hsame]), hsame, List.append_nil]
    exact h

theorem sessionSetupReq_of_answered {m r : Message} (hpairs : m.answers r.name = true)
    (hname : m.name = "SessionSetupRes") : r.name = "SessionSetupReq" := by
  obtain ⟨stem, hr, hm⟩ := Message.answers_iff.mp hpairs
  have hstem : "SessionSetup" ++ "Res" = stem ++ "Res" :=
    (by decide : "SessionSetup" ++ "Res" = "SessionSetupRes").trans (hname.symm.trans hm)
  rw [hr, ← (String.append_left_inj "Res").mp hstem]
  decide

/-- What the vehicle holds for a session id, once it has read an answer. -/
theorem identified_joint {e : Evcc} {s : Secc} {r m : Message} {id' : SessionId} {est' : Bool}
    (h : Evcc.Identified e.consumed m id' est')
    (hid : m.sessionId = none ∨ m.sessionId = some station.sessionId)
    (hmet : Met vehicle station e.core s)
    (hknown : m.sessionId = some station.sessionId
      ∨ ((s.established = true ∨ r.name = "SessionSetupReq") →
        e.sessionId = station.sessionId)) :
    (id' = vehicle.rejoin.getD SessionId.none ∨ id' = station.sessionId)
      ∧ (est' = true → id' = station.sessionId)
      ∧ (s.established = true ∨ r.name = "SessionSetupReq" ∨ e.sessionId = station.sessionId →
        id' = station.sessionId) := by
  -- an id that is read is the one the station stamps on its messages
  have htaken : ∀ {id : SessionId}, m.sessionId = some id → id = station.sessionId := by
    intro id hsome
    rcases hid with hnone | hid
    · rw [hnone] at hsome
      cases hsome
    · rw [hid] at hsome
      exact (Option.some.inj hsome).symm
  cases h with
  | unread hnone =>
    refine ⟨hmet.named, hmet.established, ?_⟩
    have hknown := hknown.resolve_left (by rw [hnone]; exact fun h => by cases h)
    rintro (hest | hsetup | heq)
    · exact hknown (.inl hest)
    · exact hknown (.inr hsetup)
    · exact heq
  | assigned id hsome hnew hzero =>
    have heq := htaken hsome
    exact ⟨.inr heq, fun _ => heq, fun _ => heq⟩
  | repeated hsome hest =>
    have heq := htaken hsome
    exact ⟨.inr heq, fun _ => heq, fun _ => heq⟩

/-- The vehicle reads: part of the answer, which changes nothing, or the last of it. -/
theorem Joined.vehicleReads {s : Secc} {x rest : List UInt8} (hcodec : codec.Lossless)
    (hfit : Fit vehicle station) (e : Evcc) (now : Instant) (data : List UInt8)
    (h : Joined codec vehicle station log evs e.core s (x ++ e.conn.tx)
      (e.conn.rx ++ data ++ rest)) :
    Joined codec vehicle station (log ++ e.logs codec (.handleInput now data)) evs
      (e.call codec (.handleInput now data)).core s
      (x ++ (e.call codec (.handleInput now data)).conn.tx)
      ((e.call codec (.handleInput now data)).conn.rx ++ rest) := by
  have hframes : e.conn.frames = [] := h.met.evcc.frames
  by_cases hnil : e.conn.rx ++ data ++ rest = []
  -- with nothing on the way down, there is nothing to read
  · obtain ⟨hcall, hlogs, hdata, -⟩ := Evcc.reads_nothing codec now hframes hnil
    rw [hcall, hlogs, List.append_nil]
    rw [hdata, List.append_nil] at h
    exact h
  · have hsame := h
    obtain ⟨hmet, hexchange, hsound⟩ := h
    generalize hu : x ++ e.conn.tx = u at hexchange
    generalize hd : e.conn.rx ++ data ++ rest = d at hexchange hnil
    cases hexchange with
    -- bytes are on their way down only while an answer is
    | rest _ _ _ _ _ => exact absurd rfl hnil
    | asked _ _ _ _ _ _ _ _ _ _ _ => exact absurd rfl hnil
    | handed _ _ _ _ _ _ _ _ _ _ => exact absurd rfl hnil
    | @answered r m frame payload howed hidle' hopen hres hpairs hm hgen hid hflow' hclosed' hknown
        hanswer =>
      have hlimit : e.conn.maxPayloadLen = vehicle.maxPayloadLen := hmet.evcc.limit
      have hopen : e.closed = false := hopen
      have hgen : m.generation = e.conn.protocol := hgen
      rw [← hlimit] at hanswer
      rcases Evcc.reads_cases now hopen hanswer hframes hd with
        ⟨hcore, hrx, htx, hlogs⟩ | ⟨hrest, heq⟩
      · rw [hcore, hrx, htx, hlogs, List.append_nil]
        exact hsame
      · have hans : Evcc.Answers e.consumed m r.name := ⟨howed, hres, hpairs⟩
        obtain ⟨timers, more, id', est', hdispatch, hidentified, hmore⟩ :=
          Evcc.dispatch_answered (e := e.consumed) now hopen hans hm hid hfit.sessionId
            hmet.established
        have hinput := Evcc.handleInput_whole hcodec now hopen hanswer hgen hframes hmet.evcc.room
          heq hdispatch
        rw [Evcc.logs_handleInput hinput rfl, show e.call codec (.handleInput now data) = _ from
          congrArg Prod.snd hinput, hrest]
        obtain ⟨hnamed, hestablished, hkept⟩ := identified_joint hidentified hid hmet hknown
        refine ⟨⟨⟨hmet.evcc.config, hmet.evcc.limit, hmet.evcc.room, rfl⟩, hmet.secc, hmet.protocol,
          ?_, ?_, hnamed, hestablished⟩, ?_, ?_⟩
        · exact hmet.agrees.trans (Evcc.protocol_told e.flow m).symm
        · intro _
          show (Evcc.told e.flow m).isSome = true
          have hsome : e.flow.isSome = true := hmet.going hopen
          unfold Evcc.told
          split
          · rw [Option.isSome_map]
            exact hsome
          · exact hsome
        · show Exchange _ _ _ _ _ _ (x ++ e.conn.tx) []
          rw [hu]
          exact .rest rfl hidle' hflow'.symm hclosed'.symm fun hest => hkept (.inl hest)
        · refine ⟨?_, hsound.secc, hsound.accepted, ?_⟩
          · intro hmem
            rcases List.mem_append.mp hmem with hmem | hmem
            · exact hsound.evcc hmem
            · obtain ⟨event, hevent, heq⟩ := List.mem_map.mp hmem
              cases heq
              rcases List.mem_cons.mp hevent with heq | hevent
              · cases heq
              · exact (hmore _ hevent).2 rfl
          · rintro ⟨m', hm', hname⟩
            rw [Evcc.responsesOf_append, List.mem_append] at hm'
            rcases hm' with hm' | hm'
            · exact hkept (.inr (.inr (hsound.heard ⟨m', hm', hname⟩)))
            · obtain ⟨a, ha, hresponse⟩ := List.mem_filterMap.mp hm'
              obtain ⟨event, hevent, rfl⟩ := List.mem_map.mp ha
              rcases List.mem_cons.mp hevent with rfl | hevent
              · cases hresponse
                exact hkept (.inr (.inl (sessionSetupReq_of_answered hpairs hname)))
              · cases event with
                | response m'' => exact absurd rfl ((hmore _ hevent).1 m'')
                | _ => cases hresponse

/-- The station reads: part of the request, which changes nothing, or the last of it. -/
theorem Joined.stationReads {e : Evcc} {x rest : List UInt8} (hcodec : codec.Lossless)
    (hfit : Fit vehicle station) (s : Secc) (now : Instant) (data : List UInt8)
    (h : Joined codec vehicle station log evs e s.core (s.conn.rx ++ data ++ rest)
      (x ++ s.conn.tx)) :
    Joined codec vehicle station log (evs ++ s.emits codec (.handleInput now data)) e
      (s.call codec (.handleInput now data)).core
      ((s.call codec (.handleInput now data)).conn.rx ++ rest)
      (x ++ (s.call codec (.handleInput now data)).conn.tx) := by
  have hframes : s.conn.frames = [] := h.met.secc.frames
  by_cases hnil : s.conn.rx ++ data ++ rest = []
  -- with nothing on the way up, there is nothing to read
  · obtain ⟨hcall, hemits, hdata, -⟩ := Secc.reads_nothing codec now hframes hnil
    rw [hcall, hemits, List.append_nil]
    rw [hdata, List.append_nil] at h
    exact h
  · have hsame := h
    obtain ⟨hmet, hexchange, hsound⟩ := h
    generalize hu : s.conn.rx ++ data ++ rest = u at hexchange hnil
    generalize hd : x ++ s.conn.tx = d at hexchange
    cases hexchange with
    -- bytes are on their way up only while a request is
    | rest _ _ _ _ _ => exact absurd rfl hnil
    | handed _ _ _ _ _ _ _ _ _ _ => exact absurd rfl hnil
    | answered _ _ _ _ _ _ _ _ _ _ _ _ => exact absurd rfl hnil
    | @asked r flow flow' frame payload howed hidle' hopen hopen' hreq hflow hflow' haccept hid
        hknown hrequest =>
      have hlimit : s.conn.maxPayloadLen = station.maxPayloadLen := hmet.secc.limit
      have hconfig : s.config = station := hmet.secc.config
      have hopen' : s.closed = false := hopen'
      have hidle' : s.outstanding = none := hidle'
      rw [← hlimit] at hrequest
      rcases Secc.reads_cases now hopen' hrequest hframes hu with
        ⟨hcore, hrx, htx, hemits⟩ | ⟨hrest, heq⟩
      · rw [hcore, hrx, htx, hemits, List.append_nil]
        exact hsame
      · have hcarries :
            s.consumed.established = true → s.consumed.carriesTheSessionId r = true := by
          intro hest
          unfold Secc.carriesTheSessionId
          rw [hid, hknown hest, show s.consumed.config = station from hconfig, hfit.sessionId]
          simp
        obtain ⟨due, phase, timers, hdispatch⟩ := Secc.dispatch_accepted codec
          (s := s.consumed) now hopen' hreq hcarries hflow' haccept
        have hgen : r.generation = s.conn.protocol := by
          rw [Flow.generation_of_accept haccept, show s.conn.protocol = _ from hmet.protocol.symm,
            hmet.agrees, hflow, Option.map_some, Flow.protocol_of_accept haccept]
        have hinput := Secc.handleInput_whole hcodec now hopen' hidle' hrequest hgen hframes
          hmet.secc.room heq hdispatch
        rw [Secc.emits_handleInput hinput rfl, show s.call codec (.handleInput now data) = _ from
          congrArg Prod.snd hinput, hrest]
        refine ⟨⟨hmet.evcc, ⟨hconfig, hlimit, hmet.secc.room, rfl⟩, hmet.protocol, hmet.agrees,
          hmet.going, hmet.named, hmet.established⟩, ?_, ?_⟩
        · show Exchange _ _ _ _ _ _ [] (x ++ s.conn.tx)
          rw [hd]
          refine .handed howed rfl rfl hopen hopen' hflow rfl haccept ?_ ?_
          · rw [Secc.surfaced_append]
            exact List.getLast?_concat
          · intro hest
            rcases Bool.or_eq_true_iff.mp hest with hest | hsetup
            · exact .inr (hknown hest)
            · exact .inl (of_decide_eq_true hsetup)
        · refine ⟨hsound.evcc, ?_, ?_, hsound.heard⟩
          · intro hmem
            rcases List.mem_append.mp hmem with hmem | hmem
            · exact hsound.secc hmem
            · cases List.mem_singleton.mp hmem
          · intro m code why hmem
            rcases List.mem_append.mp hmem with hmem | hmem
            · exact hsound.accepted m code why hmem
            · cases List.mem_singleton.mp hmem

end Steps

/-! ## The whole session

The handshake brings the two into one state, and every move after it keeps them joined or on
their way. -/

section Session

variable {codec : Codec} {vehicle : EvccConfig} {station : SeccConfig}

/-- Nothing has gone wrong during the handshake, and nothing has been set up. -/
structure Opening.Sound (log : List Evcc.Act) (evs : List Secc.Event) : Prop where
  evcc : .event (.closed .fatal) ∉ log
  secc : .closed .fatal ∉ evs
  accepted : ∀ m code why, .refused m code why ∉ evs
  unheard : ¬ ∃ m ∈ Evcc.responsesOf log, m.name = "SessionSetupRes"

/-- During the opening nothing is on record that would go against the session. -/
theorem Opening.sound {log : List Evcc.Act} {evs : List Secc.Event} {e : Evcc} {s : Secc}
    {u d : List UInt8} (h : Opening codec vehicle station log evs e s u d) :
    Opening.Sound log evs ∧ (e.outstanding = none → e.flow = s.flow) := by
  have hunheard : ∀ req, ¬ ∃ m ∈ Evcc.responsesOf [.sent (.appProtocolReq req)],
      m.name = "SessionSetupRes" := by
    rintro req ⟨m, hm, -⟩
    cases hm
  have howed : (Evcc.offering vehicle).outstanding ≠ none := by
    exact Option.some_ne_none _
  cases h with
  | fresh hlog hevs he hs =>
    rw [hlog, hevs, he, hs]
    refine ⟨⟨by simp, by simp, by simp, ?_⟩, fun _ => rfl⟩
    rintro ⟨m, hm, -⟩
    cases hm
  | offered hlog hevs he hs h =>
    rw [hlog, hevs, he]
    exact ⟨⟨by simp, by simp, by simp, hunheard _⟩, fun hidle => absurd hidle howed⟩
  | rejected hlog hevs he hs hnone h =>
    rw [hlog, hevs, he]
    exact ⟨⟨by simp, by simp, by simp, hunheard _⟩, fun hidle => absurd hidle howed⟩
  | accepted hlog hevs he hs hsome hnew h =>
    rw [hlog, hevs, he]
    exact ⟨⟨by simp, by simp, by simp, hunheard _⟩, fun hidle => absurd hidle howed⟩

/-- Two that fit can open the session. -/
theorem Fit.deliverable (hfit : Fit vehicle station) (hanswers : codec.AnswersOffers) :
    Deliverable codec vehicle station := by
  refine ⟨fun h => ?_, fun {_ payload} h => ?_⟩
  · rw [← hfit.maxPayloadLen]
    exact h.fits
  · -- the answer is no longer than the offer, which fits
    have hoffers : ∃ answer, codec.toVec
        (.appProtocolRes (Secc.answerTo station (Evcc.offered vehicle))) = .ok answer
          ∧ answer.length ≤ payload.length := by
      refine hanswers (Evcc.offered vehicle) _ _ h.encodes ?_ ?_
      · unfold Secc.answerTo
        split
        · rfl
        · next a _ =>
          unfold AppProtocol.Res.accept AppProtocol.Negotiated.responseCode
          dsimp only
          split <;> rfl
      · intro id hid
        unfold Secc.answerTo at hid
        split at hid
        · cases hid
        · next a ha =>
          cases hid
          obtain ⟨-, e, hfind, -⟩ := AppProtocol.find?_of_negotiateWith _ _ _ _ ha
          exact ⟨e, List.mem_of_find?_eq_some hfind, by simpa using List.find?_some hfind⟩
    obtain ⟨answer, hencodes, hle⟩ := hoffers
    have hfits : answer.length ≤ vehicle.maxPayloadLen := Nat.le_trans hle h.fits
    obtain ⟨frame, hframes⟩ := Connection.frames_of_encodes hencodes hfits
      (Nat.lt_of_le_of_lt hle h.length_lt)
    refine ⟨frame, answer, ?_, hfits⟩
    rw [← hfit.maxPayloadLen]
    exact hframes

/-- Opening or joined, the link keeps it. -/
theorem keeps_step (hcodec : codec.Lossless) (hanswers : codec.AnswersOffers)
    (hfit : Fit vehicle station) :
    Link.Keeps codec vehicle station
      (fun ss response => Replies codec station ss response
        ∧ Introduces codec vehicle station ss response)
      fun log evs e s u d =>
        Opening codec vehicle station log evs e s u d
          ∨ Joined codec vehicle station log evs e s u d where
  start e h hidle hflow hopen hframes := by
    rcases h with h | h
    · exact .inl (h.start e hidle hframes)
    · have hsome : e.flow.isSome = true := h.met.going hopen
      rw [hflow] at hsome
      cases hsome
  request e m h hopen hidle hreq hflow haccept hframes := by
    rcases h with h | h
    · have hnone : e.flow = none := h.facts.flow
      rw [hflow] at hnone
      cases hnone
    · exact .inr (h.request e m hfit hopen hidle hreq hflow haccept hframes)
  respond ss now response h howed hreply := by
    rcases h with h | h
    -- the handshake surfaces nothing the application could answer
    · exact absurd h.facts.outstanding howed
    · exact .inr (h.respond ss now response hfit howed hreply.1 hreply.2)
  vehicleReads e now data h := by
    rcases h with h | h
    · rcases h.vehicleReads hcodec e now data with hopening | ⟨hopened, hup, hdown⟩
      · exact .inl hopening
      · rw [hup, hdown]
        exact .inr (hopened.joined hfit)
    · exact .inr (h.vehicleReads hcodec hfit e now data)
  stationReads s now data h := by
    rcases h with h | h
    · exact .inl (h.stationReads hcodec (hfit.deliverable hanswers) s now data)
    · exact .inr (h.stationReads hcodec hfit s now data)

end Session

/-- The two are in step: with nothing outstanding they hold one flow, after `SessionSetupRes` they
hold one session id, the station has refused nothing and neither side has seen a fault. -/
structure InStep (codec : Codec) (vehicle : EvccConfig) (station : SeccConfig)
    (vs : List Evcc.Call) (ss : List Secc.Call) : Prop where
  flow : (Evcc.after codec vehicle vs).outstanding = none →
    (Evcc.after codec vehicle vs).flow = (Secc.after codec station ss).flow
  sessionId : (∃ m ∈ Evcc.responsesOf (Evcc.history codec vehicle vs), m.name = "SessionSetupRes") →
    (Evcc.after codec vehicle vs).sessionId = (Secc.after codec station ss).config.sessionId
  accepted : ∀ m code why, .refused m code why ∉ Secc.emitted codec station ss
  vehicle : .event (.closed .fatal) ∉ Evcc.history codec vehicle vs
  station : .closed .fatal ∉ Secc.emitted codec station ss

/-- **The two drivers keep step**, however the link is run: as long as the station's application
answers what it is asked, `SessionSetupReq` is answered with a session id the vehicle gets to know,
and a failure is not too long to be sent. -/
theorem drivers_keep_step (codec : Codec) (hcodec : codec.Lossless)
    (hanswers : codec.AnswersOffers) (vehicle : EvccConfig) (station : SeccConfig)
    (hfit : Fit vehicle station) (vs : List Evcc.Call) (ss : List Secc.Call) (up down : List UInt8)
    (h : Link codec vehicle station
      (fun ss response => Replies codec station ss response
        ∧ Introduces codec vehicle station ss response) vs ss up down) :
    InStep codec vehicle station vs ss := by
  have hinvariant := h.invariant (keeps_step hcodec hanswers hfit) (.inl (.fresh rfl rfl rfl rfl))
  generalize (Secc.after codec station ss).conn.rx ++ up ++ (Evcc.after codec vehicle vs).conn.tx
    = u, (Evcc.after codec vehicle vs).conn.rx ++ down ++ (Secc.after codec station ss).conn.tx
    = d at hinvariant
  rcases hinvariant with hopening | hjoined
  · obtain ⟨hsound, hflow⟩ := hopening.sound
    exact ⟨hflow, fun hheard => absurd hheard hsound.unheard, hsound.accepted, hsound.evcc,
      hsound.secc⟩
  · obtain ⟨hmet, hexchange, hsound⟩ := hjoined
    refine ⟨fun hidle => ?_, fun hheard => ?_, hsound.accepted, hsound.evcc, hsound.secc⟩
    · cases hexchange with
      | rest _ _ hflow _ _ => exact hflow
      | asked howed _ _ _ _ _ _ _ _ _ _ =>
        rw [show (Evcc.after codec vehicle vs).core.outstanding = none from hidle] at howed
        cases howed
      | handed howed _ _ _ _ _ _ _ _ _ =>
        rw [show (Evcc.after codec vehicle vs).core.outstanding = none from hidle] at howed
        cases howed
      | answered howed _ _ _ _ _ _ _ _ _ _ _ =>
        rw [show (Evcc.after codec vehicle vs).core.outstanding = none from hidle] at howed
        cases howed
    · have hconfig : (Secc.after codec station ss).config = station := hmet.secc.config
      rw [hconfig]
      exact hsound.heard hheard

/-! ### The vectors

The recorded set-up, and the same with the answer outside `V2G_Message`, which is where the two
part. -/

/-- The handshake and `SessionSetup` of -2, across the link. -/
theorem link_sessionSetup {answers : List Secc.Call → Message → Prop}
    (hanswers : answers
      [.handleInput (.fromMillis 1)
         (Message.Golden.frame .exiEncodedV2gMessage Message.Golden.reqIso2), .takeTransmit,
       .handleInput (.fromMillis 4)
         (Message.Golden.frame .exiEncodedV2gMessage Message.Golden.sessionSetupReq)]
      Message.Golden.sessionSetup) :
    Link Message.Golden.exchange Evcc.goldenVehicle Secc.goldenConfig answers
      [.start (.fromMillis 0), .takeTransmit,
       .handleInput (.fromMillis 2)
         (Message.Golden.frame .exiEncodedV2gMessage [0x80, 0x40, 0x00, 0x40]),
       .request (.fromMillis 3) Message.Golden.sessionSetupRequest, .takeTransmit,
       .handleInput (.fromMillis 6)
         (Message.Golden.frame .exiEncodedV2gMessage Message.Golden.sessionSetupRes)]
      [.handleInput (.fromMillis 1)
         (Message.Golden.frame .exiEncodedV2gMessage Message.Golden.reqIso2), .takeTransmit,
       .handleInput (.fromMillis 4)
         (Message.Golden.frame .exiEncodedV2gMessage Message.Golden.sessionSetupReq),
       .respond (.fromMillis 5) Message.Golden.sessionSetup, .takeTransmit]
      [] [] := by
  have hasked := (link_golden answers).vehicleCalls
    (.request (.fromMillis 3) Message.Golden.sessionSetupRequest) trivial
  have hhanded := hasked.forth (.fromMillis 4)
    (Message.Golden.frame .exiEncodedV2gMessage Message.Golden.sessionSetupReq) (by decide +kernel)
  have hanswered := hhanded.stationCalls (.respond (.fromMillis 5) Message.Golden.sessionSetup)
    trivial (fun now response h => by cases h; exact hanswers)
  exact hanswered.back (.fromMillis 6)
    (Message.Golden.frame .exiEncodedV2gMessage Message.Golden.sessionSetupRes) (by decide +kernel)

/-- They are in step once `SessionSetupRes` is in. -/
theorem drivers_keep_step_sessionSetup :
    InStep Message.Golden.exchange Evcc.goldenVehicle Secc.goldenConfig
      [.start (.fromMillis 0), .takeTransmit,
       .handleInput (.fromMillis 2)
         (Message.Golden.frame .exiEncodedV2gMessage [0x80, 0x40, 0x00, 0x40]),
       .request (.fromMillis 3) Message.Golden.sessionSetupRequest, .takeTransmit,
       .handleInput (.fromMillis 6)
         (Message.Golden.frame .exiEncodedV2gMessage Message.Golden.sessionSetupRes)]
      [.handleInput (.fromMillis 1)
         (Message.Golden.frame .exiEncodedV2gMessage Message.Golden.reqIso2), .takeTransmit,
       .handleInput (.fromMillis 4)
         (Message.Golden.frame .exiEncodedV2gMessage Message.Golden.sessionSetupReq),
       .respond (.fromMillis 5) Message.Golden.sessionSetup, .takeTransmit] :=
  drivers_keep_step Message.Golden.exchange Message.Golden.lossless_exchange
    Message.Golden.answersOffers_exchange Evcc.goldenVehicle Secc.goldenConfig
    ⟨rfl, rfl, rfl, by decide⟩ _ _ [] []
    (link_sessionSetup
      ⟨⟨Message.Golden.sessionSetupRequest, by unfold Secc.Surfaced; decide +kernel, rfl,
          by decide +kernel, Message.Golden.sessionSetupRes, by decide +kernel⟩,
        fun _ _ _ => .inl rfl, fun h => by cases h⟩)

/-- A station with another id than the one the vehicle asks to rejoin. -/
def Secc.otherConfig : SeccConfig :=
  { SeccConfig.default with sessionId := ⟨[0x01, 0x02, 0x03, 0x04, 0x05, 0x06, 0x07, 0x08], rfl⟩ }

/-- Outside `V2G_Message` there is no header to bring the station's id in, and the vehicle goes on
with the one it had. -/
theorem bare_sessionSetup_parts_them :
    ∃ vs ss, Link Message.Golden.exchange Evcc.goldenVehicle Secc.otherConfig
        (Replies Message.Golden.exchange Secc.otherConfig) vs ss [] []
      ∧ Fit Evcc.goldenVehicle Secc.otherConfig
      ∧ ¬ InStep Message.Golden.exchange Evcc.goldenVehicle Secc.otherConfig vs ss := by
  have hstart : Link Message.Golden.exchange Evcc.goldenVehicle Secc.otherConfig
      (Replies Message.Golden.exchange Secc.otherConfig) [.start (.fromMillis 0)] [] [] [] :=
    Link.new.vehicleCalls (.start (.fromMillis 0)) trivial
  have hoffered := hstart.forth (.fromMillis 1)
    (Message.Golden.frame .exiEncodedV2gMessage Message.Golden.reqIso2) (by decide +kernel)
  have hagreed := hoffered.back (.fromMillis 2)
    (Message.Golden.frame .exiEncodedV2gMessage [0x80, 0x40, 0x00, 0x40]) (by decide +kernel)
  have hasked := hagreed.vehicleCalls
    (.request (.fromMillis 3) Message.Golden.sessionSetupRequest) trivial
  have hhanded := hasked.forth (.fromMillis 4)
    (Message.Golden.frame .exiEncodedV2gMessage Message.Golden.sessionSetupReq) (by decide +kernel)
  have hanswered := hhanded.stationCalls (.respond (.fromMillis 5) Message.Golden.bareSessionSetup)
    trivial (fun now response h => by
      cases h
      exact ⟨Message.Golden.sessionSetupRequest, by unfold Secc.Surfaced; decide +kernel, rfl,
        by decide +kernel, Message.Golden.bareSessionSetupRes, by decide +kernel⟩)
  have hread := hanswered.back (.fromMillis 6)
    (Message.Golden.frame .exiEncodedV2gMessage Message.Golden.bareSessionSetupRes)
    (by decide +kernel)
  refine ⟨_, _, hread, ⟨rfl, rfl, rfl, by decide⟩, fun h => ?_⟩
  have hid := h.sessionId ⟨Message.Golden.bareSessionSetup, by decide +kernel, by decide +kernel⟩
  revert hid
  decide +kernel

end Iso15118
