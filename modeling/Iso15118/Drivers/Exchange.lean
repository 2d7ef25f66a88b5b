import Iso15118.Drivers.Lockstep

/-!
# Every message once, and in order

The vehicle asks, the station's application is shown what was asked, it answers, and the vehicle is
handed the answer. On a link that loses nothing, and whatever the two applications do, the four
lists that are made of a session are one list of exchanges, and what is under way of the next:
**`exchanges_in_order`**. No request is shown twice, none is shown that was not asked, none is
passed over; and so it is with the answers.

It takes answers of the generation that was agreed on: the vehicle reads what it is sent with the
codec of its own, and makes of the bytes of another what that makes of them.

The invariant is **`Booked`**: the four lists are in order up to the exchange under way (`InOrder`),
and where that one stands is where the bytes between the two say it does (`Underway`). A message may
also come to nothing, because the side that reads it closes over it; these are stages of their own,
in which the lists grow no more. So the invariant holds whatever the applications do.
-/

namespace Iso15118

open Iso15118.Lib Iso15118.Session
open Iso15118.Message (Codec Outcome)
open Iso15118.Session.Connection (Frames)

/-! ## What is on record

The four lists, each read off what a driver has put on record. At any time they are of the
exchanges that are over, and of one that has got to some stage. -/

namespace Evcc

/-- The request an entry asks, the handshake apart. -/
def Act.request? : Act → Option Message
  | .sent m => if m.generation = none then none else some m
  | .event _ => none

/-- The requests asked, in order. -/
def requestsOf (log : List Act) : List Message := log.filterMap Act.request?

@[simp] theorem requestsOf_append (xs ys : List Act) :
    requestsOf (xs ++ ys) = requestsOf xs ++ requestsOf ys := List.filterMap_append

@[simp] theorem requestsOf_map_event (evs : List Event) : requestsOf (evs.map .event) = [] := by
  induction evs with
  | nil => rfl
  | cons event evs ih => exact ih

theorem requestsOf_sent {m : Message} (h : m.generation ≠ none) : requestsOf [.sent m] = [m] := by
  simp [requestsOf, Act.request?, h]

end Evcc

namespace Secc

/-- The request an event shows the application, whatever the station makes of it. -/
def Event.shown? : Event → Option Message
  | .request m | .refused m _ _ | .overdue m _ _ => some m
  | .protocolAgreed _ | .closed _ => none

/-- The requests shown, in order. -/
def shownIn (evs : List Event) : List Message := evs.filterMap Event.shown?

@[simp] theorem shownIn_append (xs ys : List Event) :
    shownIn (xs ++ ys) = shownIn xs ++ shownIn ys := List.filterMap_append

end Secc

/-- How far the exchange under way has got: what of it has been asked, shown and answered. -/
inductive Stage : List Message → List Message → List Message → Prop
  | settled : Stage [] [] []
  | asked (r : Message) : Stage [r] [] []
  | shown (r : Message) : Stage [r] [r] []
  | given (r m : Message) : Stage [r] [r] [m]

/-- The four lists are of exchanges that are over, each a request and its answer, and of one that is
under way. -/
def InOrder (asked shown given read : List Message) : Prop :=
  ∃ (done : List (Message × Message)) (a b c : List Message),
    (∀ x ∈ done, x.2.answers x.1.name = true) ∧ Stage a b c
      ∧ asked = done.map Prod.fst ++ a ∧ shown = done.map Prod.fst ++ b
      ∧ given = done.map Prod.snd ++ c ∧ read = done.map Prod.snd

/-! ## One message, read

What either side makes of a whole frame, as a case analysis that the joint invariant can use: it
is taken, or it is a fault and the session has ended. -/

namespace Evcc

variable {codec : Codec} {vehicle : EvccConfig} {e : Evcc} {m : Message}
  {frame payload data : List UInt8}

/-- A message that is a fault closes the session once its last byte is there. -/
theorem handleInput_faulted {e' : Evcc} {error : EvccError} (hcodec : codec.Lossless)
    (now : Instant) (hopen : e.closed = false)
    (h : Frames codec e.conn.maxPayloadLen m frame payload) (hgen : m.generation = e.conn.protocol)
    (hframes : e.conn.frames = []) (hroom : 0 < e.conn.maxPendingFrames)
    (heq : e.conn.rx ++ data = frame) (hdispatch : e.consumed.dispatch now m = (.error error, e')) :
    e.handleInput codec now data = (.error error, e'.closeFatal) := by
  have hnext := Connection.nextMessage_of_whole
    (c := { e.conn with rx := [], frames := [(m.payloadType, payload)] }) hcodec h hgen rfl
  unfold consumed at hdispatch
  unfold handleInput
  rw [if_neg (by simp [hopen]), Connection.receive_whole h heq hframes hroom]
  dsimp only
  rw [drain, hnext]
  dsimp only
  rw [hdispatch]
  rfl

/-- What reading a whole message leaves of the vehicle. -/
structure Took (e e' : Evcc) : Prop where
  config : e'.config = e.config
  conn : e'.conn = { e.conn with rx := [], frames := [] }
  flow : e'.flow.map Flow.protocol = e.flow.map Flow.protocol
  outstanding : e'.outstanding = none

/-- **The vehicle reads an answer**: it is handed to the application, as the answer to what was
asked, or it is a fault. -/
theorem reads_answer {expected : String} (hcodec : codec.Lossless) (now : Instant)
    (hopen : e.closed = false) (h : Frames codec e.conn.maxPayloadLen m frame payload)
    (hgen : m.generation = e.conn.protocol) (hsome : m.generation ≠ none)
    (hframes : e.conn.frames = []) (hroom : 0 < e.conn.maxPendingFrames)
    (heq : e.conn.rx ++ data = frame) (howed : e.outstanding = some expected) :
    Took e (e.call codec (.handleInput now data))
      ∧ requestsOf (e.logs codec (.handleInput now data)) = []
      ∧ ((responsesOf (e.logs codec (.handleInput now data)) = [m]
            ∧ m.answers expected = true)
          ∨ (responsesOf (e.logs codec (.handleInput now data)) = []
            ∧ (e.call codec (.handleInput now data)).closed = true)) := by
  have hm : ∀ res, m ≠ .appProtocolRes res := by
    rintro res rfl
    exact hsome rfl
  obtain ⟨evs, hdispatched⟩ := dispatched_dispatch (s := e.consumed) now m hopen
  generalize hdispatch : e.consumed.dispatch now m = out at hdispatched
  -- an answer is read the same way whether the session goes on or ends with it
  have hread : ∀ {e' : Evcc} {more : List Event},
      e.consumed.dispatch now m = (.ok (), e') → e'.events = e.events ++ .response m :: more →
      (∀ event ∈ more, ∀ m', event ≠ .response m') → Took e e' → m.answers expected = true →
      Took e (e.call codec (.handleInput now data))
        ∧ requestsOf (e.logs codec (.handleInput now data)) = []
        ∧ ((responsesOf (e.logs codec (.handleInput now data)) = [m]
              ∧ m.answers expected = true)
            ∨ (responsesOf (e.logs codec (.handleInput now data)) = []
              ∧ (e.call codec (.handleInput now data)).closed = true)) := by
    intro e' more hok hevents hmore htook hpairs
    have hinput := handleInput_whole hcodec now hopen h hgen hframes hroom heq hok
    rw [show e.call codec (.handleInput now data) = e' from congrArg Prod.snd hinput,
      logs_handleInput hinput hevents]
    refine ⟨htook, requestsOf_map_event _, .inl ⟨?_, hpairs⟩⟩
    have hquiet : responsesOf (more.map .event) = [] := by
      refine List.filterMap_eq_nil_iff.mpr fun a ha => ?_
      obtain ⟨event, hevent, rfl⟩ := List.mem_map.mp ha
      exact (quiet_event (hmore event hevent) _ (List.mem_singleton_self _)).2
    show m :: responsesOf (more.map .event) = [m]
    rw [hquiet]
  cases hdispatched with
  -- a fault: the session is over, and nothing is surfaced
  | fault error timers outstanding answeredAt =>
    have hinput := handleInput_faulted hcodec now hopen h hgen hframes hroom heq hdispatch
    rw [closeFatal_of_open (by exact hopen)] at hinput
    have hlogs : e.logs codec (.handleInput now data) = [.event (.closed .fatal)] := by
      have hevents : (e.handleInput codec now data).2.events = e.events ++ [.closed .fatal] := by
        rw [hinput]
        rfl
      exact logs_eq codec (.handleInput now data) rfl hevents
    rw [hlogs, show e.call codec (.handleInput now data) = _ from congrArg Prod.snd hinput]
    exact ⟨⟨rfl, rfl, rfl, rfl⟩, rfl, .inr ⟨rfl, rfl⟩⟩
  -- the answer is none of the handshake's
  | rejected res set hm' hans => exact absurd hm' (hm res)
  | agreed res protocol set flow hm' hans hnew => exact absurd hm' (hm res)
  -- surfaced, with the session going on; behind it there is at most one more event
  | surfaced more timers hm' hans hid hmore hongoing hsetup hgoes =>
    have hexpected := howed.symm.trans hans.owed
    cases hexpected
    refine hread hdispatch rfl ?_ ⟨rfl, rfl, protocol_told _ _, rfl⟩ hans.pairs
    rcases hmore with rfl | rfl
    · exact fun event hevent => by cases hevent
    · intro event hevent m' heq
      rw [List.mem_singleton.mp hevent] at heq
      cases heq
  -- surfaced, and the session ends with it
  | ended why hm' hans hid hwhy =>
    have hexpected := howed.symm.trans hans.owed
    cases hexpected
    refine hread hdispatch rfl ?_ ⟨rfl, rfl, protocol_told _ _, rfl⟩ hans.pairs
    intro event hevent m' heq
    rw [List.mem_singleton.mp hevent] at heq
    cases heq

end Evcc

namespace Secc

variable {codec : Codec} {station : SeccConfig} {s : Secc} {m : Message}
  {frame payload data : List UInt8}

/-- A message that is a fault closes the session once its last byte is there. -/
theorem handleInput_faulted {s' : Secc} {error : SeccError} (hcodec : codec.Lossless)
    (now : Instant) (hopen : s.closed = false) (hidle : s.outstanding = none)
    (h : Frames codec s.conn.maxPayloadLen m frame payload) (hgen : m.generation = s.conn.protocol)
    (hframes : s.conn.frames = []) (hroom : 0 < s.conn.maxPendingFrames)
    (heq : s.conn.rx ++ data = frame)
    (hdispatch : s.consumed.dispatch codec now m = (.error error, s')) :
    s.handleInput codec now data = (.error error, s'.closeFatal) := by
  have hnext := Connection.nextMessage_of_whole
    (c := { s.conn with rx := [], frames := [(m.payloadType, payload)] }) hcodec h hgen rfl
  unfold consumed at hdispatch
  unfold handleInput
  rw [if_neg (by simp [hopen]), Connection.receive_whole h heq hframes hroom]
  dsimp only
  rw [pump, if_neg (by simp [hopen, hidle]), hnext]
  dsimp only
  rw [hdispatch]
  rfl

/-- What reading a whole message leaves of the station. -/
structure Took (s s' : Secc) : Prop where
  config : s'.config = s.config
  conn : s'.conn = { s.conn with rx := [], frames := [] }
  met : s'.closed = false → s'.flow.isSome = true

/-- **The station reads a request**: it is shown to the application, which owes it an answer, or it
is a fault. -/
theorem reads_request (hcodec : codec.Lossless) (now : Instant) (hopen : s.closed = false)
    (hidle : s.outstanding = none) (h : Frames codec s.conn.maxPayloadLen m frame payload)
    (hgen : m.generation = s.conn.protocol) (hsome : m.generation ≠ none)
    (hframes : s.conn.frames = []) (hroom : 0 < s.conn.maxPendingFrames)
    (heq : s.conn.rx ++ data = frame) :
    Took s (s.call codec (.handleInput now data))
      ∧ ((shownIn (s.emits codec (.handleInput now data)) = [m]
            ∧ (s.call codec (.handleInput now data)).outstanding ≠ none)
          ∨ (shownIn (s.emits codec (.handleInput now data)) = []
            ∧ (s.call codec (.handleInput now data)).outstanding = none
            ∧ (s.call codec (.handleInput now data)).closed = true)) := by
  have hm : ∀ req, m ≠ .appProtocolReq req := by
    rintro req rfl
    exact hsome rfl
  obtain ⟨evs, hdispatched⟩ := dispatched_dispatch codec (s := s.consumed) now m hopen
  generalize hdispatch : s.consumed.dispatch codec now m = out at hdispatched
  -- a request is shown the same way whether it is accepted or refused
  have hread : ∀ {s' : Secc} {evs : List Event},
      s.consumed.dispatch codec now m = (.ok (), s') → s'.events = s.events ++ evs →
      shownIn evs = [m] → s'.outstanding ≠ none → Took s s' →
      Took s (s.call codec (.handleInput now data))
        ∧ ((shownIn (s.emits codec (.handleInput now data)) = [m]
              ∧ (s.call codec (.handleInput now data)).outstanding ≠ none)
            ∨ (shownIn (s.emits codec (.handleInput now data)) = []
              ∧ (s.call codec (.handleInput now data)).outstanding = none
              ∧ (s.call codec (.handleInput now data)).closed = true)) := by
    intro s' evs hok hevents hshown howed htook
    have hinput := handleInput_whole hcodec now hopen hidle h hgen hframes hroom heq hok
    rw [show s.call codec (.handleInput now data) = s' from congrArg Prod.snd hinput,
      emits_handleInput hinput hevents]
    exact ⟨htook, .inl ⟨hshown, howed⟩⟩
  cases hdispatched with
  -- a fault: nothing is shown, and the session is over
  | fault error timers hfaulty =>
    have hinput := handleInput_faulted hcodec now hopen hidle h hgen hframes hroom heq hdispatch
    rw [closeFatal_of_open (by exact hopen)] at hinput
    have hemits : s.emits codec (.handleInput now data) = [.closed .fatal] := by
      refine emits_eq ?_
      show (s.handleInput codec now data).2.events = _
      rw [hinput]
      rfl
    rw [hemits, show s.call codec (.handleInput now data) = _ from congrArg Prod.snd hinput]
    exact ⟨⟨rfl, rfl, fun h => by cases h⟩, .inr ⟨rfl, rfl, rfl⟩⟩
  -- it is none of the handshake's
  | rejected req frame timers hm' hnone => exact absurd hm' (hm req)
  | agreed req protocol set flow frame timers hm' hnone hnew hsetup => exact absurd hm' (hm req)
  -- shown, whether the id is wrong, or the flow takes the request, or refuses it
  | unknown due timers hm' hreq hest hid =>
    exact hread hdispatch rfl rfl (Option.some_ne_none _) ⟨rfl, rfl, fun h => by cases h⟩
  | accepted flow flow' due phase timers hreq hid hflow' haccept hsetup =>
    exact hread hdispatch rfl rfl (Option.some_ne_none _) ⟨rfl, rfl, fun _ => rfl⟩
  | refused flow error event due overdue timers hreq hid hflow' haccept hevent =>
    refine hread hdispatch rfl ?_ (Option.some_ne_none _) ⟨rfl, rfl, fun h => by cases h⟩
    rcases hevent with rfl | ⟨phase, rfl⟩
    · rfl
    · rfl

/-- What has been answered has been framed, with the id of the session in it. -/
theorem frames_of_answer {s' : Secc} {response : Message}
    (h : s.answer codec response = (.ok (), s')) :
    ∃ frame payload, Frames codec s.conn.maxPayloadLen
        (response.setSessionId s.config.sessionId).2 frame payload
      ∧ s'.conn = { s.conn with tx := s.conn.tx ++ frame } := by
  unfold answer at h
  split at h
  · cases h
  · split at h
    · cases h
    · split at h
      · cases h
      · dsimp only at h
        split at h
        · cases h
        · -- whether the flow is told of a failure is nothing to the connection
          generalize (response.setSessionId s.config.sessionId).2 = stamped at h ⊢
          have hconn : (if stamped.outcome.any Outcome.isFailure = true then
              { s with flow := s.flow.map Flow.recordFailure } else s).conn = s.conn := by
            split <;> rfl
          generalize (if stamped.outcome.any Outcome.isFailure = true then
            { s with flow := s.flow.map Flow.recordFailure } else s) = told at h hconn
          split at h
          · cases h
          · next conn hsend =>
            cases h
            rw [hconn] at hsend
            obtain ⟨frame, payload, hframes, heq⟩ := Connection.frames_of_send hsend
            exact ⟨frame, payload, hframes, heq⟩

/-- **The station answers**: what it puts behind what it has to transmit is the frame of the
response it was given, with its session id; or it puts nothing there, and still owes the answer. -/
theorem respond_effect (codec : Codec) (s : Secc) (now : Instant) (response : Message)
    (hframes : s.conn.frames = []) (hmet : s.closed = false → s.flow.isSome = true) :
    (s.respond codec now response).2.config = s.config
      ∧ ((s.respond codec now response).2.closed = false →
        (s.respond codec now response).2.flow.isSome = true)
      ∧ shownIn (s.emits codec (.respond now response)) = []
      ∧ ((s.queues codec (.respond now response) = []
            ∧ (s.respond codec now response).2.conn = s.conn
            ∧ (s.respond codec now response).2.outstanding = s.outstanding)
          ∨ ∃ frame payload, s.queues codec (.respond now response) = [response]
            ∧ Frames codec s.conn.maxPayloadLen (response.setSessionId s.config.sessionId).2 frame
              payload
            ∧ (s.respond codec now response).2.conn = { s.conn with tx := s.conn.tx ++ frame }
            ∧ (s.respond codec now response).2.outstanding = none) := by
  have hsome : ∀ {flow : Option Flow}, SameOrFailed s.flow flow → flow.isSome = s.flow.isSome := by
    intro flow h
    rcases h with rfl | rfl
    · rfl
    · exact Option.isSome_map
  rcases s.answer_cases codec response with
    ⟨error, flow, h, hflow⟩ | ⟨o, flow, frame, h, howed, hflow, -⟩
  -- turned away: at most the flow has been told of a failure
  · have hcall : (s.respond codec now response).2 = { s with flow := flow } := by
      rw [respond, h]
    have hemits : s.emits codec (.respond now response) = [] :=
      emits_of_events (show (s.respond codec now response).2.events = s.events by rw [hcall])
    have hqueues : s.queues codec (.respond now response) = [] := by simp only [queues, h]
    rw [hcall, hemits]
    exact ⟨rfl, fun hopen => (hsome hflow).trans (hmet hopen), rfl, .inl ⟨hqueues, rfl, rfl⟩⟩
  -- queued: the frame is put behind what is to be transmitted
  · have hqueues : s.queues codec (.respond now response) = [response] := by simp only [queues, h]
    obtain ⟨frame', payload, hframe, hconn⟩ := frames_of_answer h
    rw [hqueues]
    have hrespond : s.respond codec now response
        = closeOnError (pump codec (settle { s with
            flow := flow
            conn := { s.conn with tx := s.conn.tx ++ frame' }
            outstanding := none } now) now) := by
      rw [respond, h]
      dsimp only at hconn ⊢
      rw [hconn]
    generalize hs' : Secc.mk .. = s' at hrespond
    have hsettled := settled_settle s' now
    generalize s'.settle now = t at hrespond hsettled
    subst hs'
    -- with nothing framed there is nothing the pump could read
    cases hsettled with
    | waiting timers hsetup =>
      rw [pump_of_nil now (by exact hframes)] at hrespond
      have hemits : s.emits codec (.respond now response) = [] := by
        refine emits_of_events ?_
        show (s.respond codec now response).2.events = s.events
        rw [hrespond]
        rfl
      rw [hemits, hrespond]
      exact ⟨rfl, fun hopen => (hsome hflow).trans (hmet hopen), rfl,
        .inr ⟨frame', payload, rfl, hframe, rfl, rfl⟩⟩
    | finished why hopen hwhy =>
      rw [pump_of_nil now (by exact hframes)] at hrespond
      have hemits : s.emits codec (.respond now response) = [.closed why] := by
        refine emits_eq ?_
        show (s.respond codec now response).2.events = s.events ++ _
        rw [hrespond]
        rfl
      rw [hemits, hrespond]
      exact ⟨rfl, fun hopen => (by cases hopen), rfl,
        .inr ⟨frame', payload, rfl, hframe, rfl, rfl⟩⟩

/-- A closed station takes no notice of what comes in. -/
theorem call_of_closed (codec : Codec) (now : Instant) (data : List UInt8)
    (hclosed : s.closed = true) : s.call codec (.handleInput now data) = s := by
  show (s.handleInput codec now data).2 = s
  unfold handleInput
  rw [if_pos hclosed]

end Secc

/-! ## The joint invariant

Where the exchange under way stands is told by what is between the two: a request on the one
channel, an answer on the other, or nothing. One lemma for each thing that can happen next; none
of them looks into the others. -/

/-- The response as the station sends it. -/
def stampedBy (station : SeccConfig) (response : Message) : Message :=
  (response.setSessionId station.sessionId).2

/-- What the two have in common once the handshake is over. -/
structure Coupled (vehicle : EvccConfig) (station : SeccConfig) (e : Evcc) (s : Secc) : Prop where
  evcc : e.Plugged vehicle
  secc : s.Plugged station
  protocol : e.conn.protocol = s.conn.protocol
  agrees : e.conn.protocol = e.flow.map Flow.protocol
  going : e.closed = false → e.flow.isSome = true
  met : s.closed = false → s.flow.isSome = true

/-- How far the exchange under way has got, and what of it is between the two: nothing has been
asked; the request is on its way, or has come to nothing; the application has it; the answer is on
its way, or has come to nothing. -/
inductive Underway (codec : Codec) (vehicle : EvccConfig) (station : SeccConfig) (e : Evcc)
    (s : Secc) : List Message → List Message → List Message → List UInt8 → List UInt8 → Prop
  | rest (hidle : e.outstanding = none) (hidle' : s.outstanding = none) :
      Underway codec vehicle station e s [] [] [] [] []
  | asked {r : Message} {frame payload : List UInt8} (howed : e.outstanding = some r.name)
      (hopen : e.closed = false) (hidle' : s.outstanding = none)
      (hgen : r.generation = e.conn.protocol)
      (h : Frames codec station.maxPayloadLen r frame payload) :
      Underway codec vehicle station e s [r] [] [] frame []
  | lost {r : Message} {u : List UInt8} (howed : e.outstanding = some r.name)
      (hopen : e.closed = false) (hidle' : s.outstanding = none) (hclosed' : s.closed = true) :
      Underway codec vehicle station e s [r] [] [] u []
  | handed {r : Message} (howed : e.outstanding = some r.name) (hopen : e.closed = false)
      (howed' : s.outstanding ≠ none) : Underway codec vehicle station e s [r] [r] [] [] []
  | answered {r m : Message} {frame payload : List UInt8} (howed : e.outstanding = some r.name)
      (hopen : e.closed = false) (hidle' : s.outstanding = none)
      (hgen : m.generation = e.conn.protocol)
      (h : Frames codec vehicle.maxPayloadLen m frame payload) :
      Underway codec vehicle station e s [r] [r] [m] [] frame
  | failed {r m : Message} (hidle : e.outstanding = none) (hclosed : e.closed = true)
      (hidle' : s.outstanding = none) : Underway codec vehicle station e s [r] [r] [m] [] []

/-- Both ends, with the exchanges that are over and what has been asked, shown and answered of the
one under way. -/
structure Booked (codec : Codec) (vehicle : EvccConfig) (station : SeccConfig)
    (done : List (Message × Message)) (a b c : List Message) (log : List Evcc.Act)
    (evs : List Secc.Event) (given : List Message) (e : Evcc) (s : Secc) (u d : List UInt8) :
    Prop where
  coupled : Coupled vehicle station e s
  underway : Underway codec vehicle station e s a b c u d
  pairs : ∀ x ∈ done, x.2.answers x.1.name = true
  asked : Evcc.requestsOf log = done.map Prod.fst ++ a
  shown : Secc.shownIn evs = done.map Prod.fst ++ b
  given : given.map (stampedBy station) = done.map Prod.snd ++ c
  read : Evcc.responsesOf log = done.map Prod.snd

theorem Evcc.Plugged.took {vehicle : EvccConfig} {e e' : Evcc} (h : e.Plugged vehicle)
    (htook : Took e e') : e'.Plugged vehicle := by
  refine ⟨htook.config.trans h.config, ?_, ?_, ?_⟩
  · rw [htook.conn]
    exact h.limit
  · rw [htook.conn]
    exact h.room
  · rw [htook.conn]

theorem Secc.Plugged.took {station : SeccConfig} {s s' : Secc} (h : s.Plugged station)
    (htook : Took s s') : s'.Plugged station := by
  refine ⟨htook.config.trans h.config, ?_, ?_, ?_⟩
  · rw [htook.conn]
    exact h.limit
  · rw [htook.conn]
    exact h.room
  · rw [htook.conn]

/-- What it has to transmit is nothing to it. -/
theorem Secc.Plugged.transmits {station : SeccConfig} {s s' : Secc} {tx : List UInt8}
    (h : s.Plugged station) (hconfig : s'.config = s.config)
    (hconn : s'.conn = { s.conn with tx := tx }) : s'.Plugged station := by
  refine ⟨hconfig.trans h.config, ?_, ?_, ?_⟩
  · rw [hconn]
    exact h.limit
  · rw [hconn]
    exact h.room
  · rw [hconn]
    exact h.frames

section Steps

variable {codec : Codec} {vehicle : EvccConfig} {station : SeccConfig}
  {done : List (Message × Message)} {a b c : List Message} {log : List Evcc.Act}
  {evs : List Secc.Event} {given : List Message} {u d : List UInt8}

theorem Underway.stage {e : Evcc} {s : Secc}
    (h : Underway codec vehicle station e s a b c u d) : Stage a b c := by
  cases h with
  | rest hidle hidle' => exact .settled
  | asked howed hopen hidle' hgen h => exact .asked _
  | lost howed hopen hidle' hclosed' => exact .asked _
  | handed howed hopen howed' => exact .shown _
  | answered howed hopen hidle' hgen h => exact .given _ _
  | failed hidle hclosed hidle' => exact .given _ _

/-- The two of an open session have a generation. -/
theorem Coupled.protocol_ne_none {e : Evcc} {s : Secc} (h : Coupled vehicle station e s)
    (hopen : e.closed = false) : e.conn.protocol ≠ none := by
  obtain ⟨flow, hflow⟩ := Option.isSome_iff_exists.mp (h.going hopen)
  rw [h.agrees, hflow]
  exact Option.some_ne_none _

/-- With the handshake over, nothing has been asked. -/
theorem Opened.booked {e : Evcc} {s : Secc} (h : Opened vehicle station log evs e s)
    (hgiven : given = []) :
    Booked codec vehicle station [] [] [] [] log evs given e s [] [] := by
  have hroom : ∀ n, 0 < max n 1 := fun n => by omega
  cases h with
  | rejected hlog hevs he hs hnone =>
    rw [he, hs, hlog, hevs, hgiven]
    refine ⟨⟨⟨rfl, rfl, hroom _, rfl⟩, ⟨rfl, rfl, hroom _, rfl⟩, rfl, rfl, ?_, ?_⟩, .rest rfl rfl,
      fun x hx => (by cases hx), rfl, rfl, rfl, rfl⟩
    · exact fun h => by cases h
    · exact fun h => by cases h
  | agreed hlog hevs he hs hsome hnew hnew' =>
    rw [he, hs, hlog, hevs, hgiven]
    exact ⟨⟨⟨rfl, rfl, hroom _, rfl⟩, ⟨rfl, rfl, hroom _, rfl⟩, rfl,
      congrArg some (Flow.protocol_of_new hnew').symm, fun _ => rfl, fun _ => rfl⟩, .rest rfl rfl,
      fun x hx => (by cases hx), rfl, rfl, rfl, rfl⟩

/-- A request goes out where nothing was asked. -/
theorem Booked.request {s : Secc} {frame payload : List UInt8} {flow flow' : Flow} (e : Evcc)
    (m : Message) (hlimit : vehicle.maxPayloadLen = station.maxPayloadLen)
    (h : Booked codec vehicle station done a b c log evs given e.core s u d)
    (hopen : e.closed = false) (hidle : e.outstanding = none) (hflow : e.flow = some flow)
    (haccept : flow.accept (m.setSessionId e.sessionId).2 = (.ok (), flow'))
    (hframes : Frames codec e.conn.maxPayloadLen (m.setSessionId e.sessionId).2 frame payload) :
    Booked codec vehicle station done [(m.setSessionId e.sessionId).2] [] []
      (log ++ [.sent (m.setSessionId e.sessionId).2]) evs given
      { e.core with flow := some flow', outstanding := some m.name } s (u ++ frame) d := by
  obtain ⟨hcoupled, hunderway, hpairs, hasked, hshown, hgiven, hread⟩ := h
  have hgen := Flow.generation_of_accept haccept
  have hprotocol : e.conn.protocol = some flow.protocol := by
    rw [show e.conn.protocol = e.flow.map Flow.protocol from hcoupled.agrees, hflow]
    rfl
  -- anywhere else in an exchange the vehicle is owed an answer, or has closed
  cases hunderway with
  | asked howed _ _ _ _ => exact absurd (hidle.symm.trans howed) (by simp)
  | lost howed _ _ _ => exact absurd (hidle.symm.trans howed) (by simp)
  | handed howed _ _ => exact absurd (hidle.symm.trans howed) (by simp)
  | answered howed _ _ _ _ => exact absurd (hidle.symm.trans howed) (by simp)
  | failed _ hclosed _ => exact absurd (hopen.symm.trans hclosed) (by simp)
  | rest _ hidle' =>
    have hstamp := m.sameButHeader_setSessionId e.sessionId
    have hsome : (m.setSessionId e.sessionId).2.generation ≠ none := by
      rw [hgen]
      exact Option.some_ne_none _
    have hfits : Frames codec station.maxPayloadLen (m.setSessionId e.sessionId).2 frame
        payload := by
      rw [← hlimit, ← show e.conn.maxPayloadLen = vehicle.maxPayloadLen from hcoupled.evcc.limit]
      exact hframes
    refine ⟨⟨⟨hcoupled.evcc.config, hcoupled.evcc.limit, hcoupled.evcc.room,
      hcoupled.evcc.frames⟩, hcoupled.secc, hcoupled.protocol, ?_, fun _ => rfl, hcoupled.met⟩,
      .asked (congrArg some hstamp.name.symm) hopen hidle' (hgen.trans hprotocol.symm) hfits,
      hpairs, ?_, hshown, hgiven, ?_⟩
    · show e.conn.protocol = some flow'.protocol
      rw [hprotocol, Flow.protocol_of_accept haccept]
    · rw [Evcc.requestsOf_append, Evcc.requestsOf_sent hsome, hasked, List.append_nil]
    · rw [Evcc.responsesOf_append, hread]
      exact List.append_nil _

/-- The station answers what its application has been handed, or does not. -/
theorem Booked.respond {e : Evcc} {x rest : List UInt8} (ss : List Secc.Call) (now : Instant)
    (response : Message) (hlimit : vehicle.maxPayloadLen = station.maxPayloadLen)
    (h : Booked codec vehicle station done a b c log (Secc.emitted codec station ss)
      (Secc.queued codec station ss) e (Secc.after codec station ss).core
      ((Secc.after codec station ss).conn.rx ++ rest)
      (x ++ (Secc.after codec station ss).conn.tx))
    (howed : (Secc.after codec station ss).outstanding ≠ none)
    (hgen : response.generation = (Secc.after codec station ss).conn.protocol) :
    ∃ c', Booked codec vehicle station done a b c' log
      (Secc.emitted codec station (ss ++ [.respond now response]))
      (Secc.queued codec station (ss ++ [.respond now response])) e
      (Secc.after codec station (ss ++ [.respond now response])).core
      ((Secc.after codec station (ss ++ [.respond now response])).conn.rx ++ rest)
      (x ++ (Secc.after codec station (ss ++ [.respond now response])).conn.tx) := by
  rw [Secc.emitted_concat, Secc.queued_concat, Secc.after_concat]
  generalize Secc.after codec station ss = s at h howed hgen ⊢
  generalize Secc.emitted codec station ss = evs at h ⊢
  generalize Secc.queued codec station ss = given at h ⊢
  obtain ⟨hcoupled, hunderway, hpairs, hasked, hshown, hgiven, hread⟩ := h
  generalize hu : s.conn.rx ++ rest = u at hunderway
  generalize hd : x ++ s.conn.tx = d at hunderway
  cases hunderway with
  -- something is outstanding only where the application has been handed the request
  | rest _ hidle' => exact absurd hidle' howed
  | asked _ _ hidle' _ _ => exact absurd hidle' howed
  | lost _ _ hidle' _ => exact absurd hidle' howed
  | answered _ _ hidle' _ _ => exact absurd hidle' howed
  | failed _ _ hidle' => exact absurd hidle' howed
  | @handed r howedby hopen howed' =>
    obtain ⟨hconfig, hmet, hnone, heffect⟩ :=
      s.respond_effect codec now response hcoupled.secc.frames hcoupled.met
    have hstation : s.config = station := hcoupled.secc.config
    have hlimit' : s.conn.maxPayloadLen = station.maxPayloadLen := hcoupled.secc.limit
    -- nothing was on its way in either direction
    obtain ⟨hrx, hrest⟩ := List.append_eq_nil_iff.mp hu
    obtain ⟨hx, htx⟩ := List.append_eq_nil_iff.mp hd
    rw [hrest, hx, List.append_nil, List.nil_append]
    have hshown' : Secc.shownIn (evs ++ s.emits codec (.respond now response))
        = done.map Prod.fst ++ [r] := by
      rw [Secc.shownIn_append, hnone, List.append_nil]
      exact hshown
    show ∃ c', Booked codec vehicle station done [r] [r] c' log _ _ e
      (s.respond codec now response).2.core (s.respond codec now response).2.conn.rx
      (s.respond codec now response).2.conn.tx
    generalize (s.respond codec now response).2 = s' at hconfig hmet heffect ⊢
    have hplugged : s.Plugged station :=
      ⟨hstation, hlimit', hcoupled.secc.room, hcoupled.secc.frames⟩
    -- either the answer was not sent, and nothing has changed, or it is on its way as it was
    -- stamped
    rcases heffect with ⟨hqueues, hconn, hout⟩ | ⟨frame, payload, hqueues, hframes, hconn, hout⟩
    · have hplugged := hplugged.transmits hconfig hconn
      rw [hqueues, List.append_nil]
      refine ⟨[], ⟨hcoupled.evcc, ⟨hplugged.config, hplugged.limit, hplugged.room,
        hplugged.frames⟩, ?_, hcoupled.agrees, hcoupled.going, hmet⟩, ?_, hpairs, hasked, hshown',
        hgiven, hread⟩
      · show e.conn.protocol = s'.conn.protocol
        rw [hconn]
        exact hcoupled.protocol
      · rw [hconn, hrx, htx]
        refine .handed howedby hopen ?_
        show s'.outstanding ≠ none
        rw [hout]
        exact howed
    -- the vehicle will read it: it is of the generation the two have agreed on
    · have hplugged := hplugged.transmits hconfig hconn
      have hstamp := response.sameButHeader_setSessionId station.sessionId
      have hgen' : (stampedBy station response).generation = e.conn.protocol := by
        unfold stampedBy
        rw [hstamp.generation, hgen]
        exact hcoupled.protocol.symm
      rw [hstation, hlimit', ← hlimit] at hframes
      rw [hqueues]
      refine ⟨[stampedBy station response], ⟨hcoupled.evcc, ⟨hplugged.config, hplugged.limit,
        hplugged.room, hplugged.frames⟩, ?_, hcoupled.agrees, hcoupled.going, hmet⟩, ?_, hpairs,
        hasked, hshown', ?_, hread⟩
      · show e.conn.protocol = s'.conn.protocol
        rw [hconn]
        exact hcoupled.protocol
      · rw [hconn, hrx, htx]
        exact .answered howedby hopen hout hgen' hframes
      · rw [List.map_append, hgiven, List.append_nil]
        rfl

/-- The vehicle reads: part of the answer, which changes nothing, or the last of it. -/
theorem Booked.vehicleReads {s : Secc} {x rest : List UInt8} (hcodec : codec.Lossless) (e : Evcc)
    (now : Instant) (data : List UInt8)
    (h : Booked codec vehicle station done a b c log evs given e.core s (x ++ e.conn.tx)
      (e.conn.rx ++ data ++ rest)) :
    ∃ done' a' b' c', Booked codec vehicle station done' a' b' c'
      (log ++ e.logs codec (.handleInput now data)) evs given
      (e.call codec (.handleInput now data)).core s
      (x ++ (e.call codec (.handleInput now data)).conn.tx)
      ((e.call codec (.handleInput now data)).conn.rx ++ rest) := by
  have hframes : e.conn.frames = [] := h.coupled.evcc.frames
  by_cases hnil : e.conn.rx ++ data ++ rest = []
  -- with nothing on the way down, there is nothing to read
  · obtain ⟨hcall, hlogs, hdata, -⟩ := Evcc.reads_nothing codec now hframes hnil
    rw [hcall, hlogs, List.append_nil]
    rw [hdata, List.append_nil] at h
    exact ⟨done, a, b, c, h⟩
  · have hsame := h
    obtain ⟨hcoupled, hunderway, hpairs, hasked, hshown, hgiven, hread⟩ := h
    generalize hu : x ++ e.conn.tx = u at hunderway
    generalize hd : e.conn.rx ++ data ++ rest = d at hunderway hnil
    cases hunderway with
    -- bytes are on their way down only while an answer is
    | rest _ _ => exact absurd rfl hnil
    | asked _ _ _ _ _ => exact absurd rfl hnil
    | lost _ _ _ _ => exact absurd rfl hnil
    | handed _ _ _ => exact absurd rfl hnil
    | failed _ _ _ => exact absurd rfl hnil
    | @answered r m frame payload howed hopen hidle' hgen hanswer =>
      have howed : e.outstanding = some r.name := howed
      have hopen : e.closed = false := hopen
      have hgen : m.generation = e.conn.protocol := hgen
      rw [← show e.conn.maxPayloadLen = vehicle.maxPayloadLen from hcoupled.evcc.limit] at hanswer
      have hsome : m.generation ≠ none := by
        rw [hgen]
        exact hcoupled.protocol_ne_none hopen
      rcases Evcc.reads_cases now hopen hanswer hframes hd with
        ⟨hcore, hrx, htx, hlogs⟩ | ⟨hrest, heq⟩
      · rw [hcore, hrx, htx, hlogs, List.append_nil]
        exact ⟨_, _, _, _, hsame⟩
      · obtain ⟨htook, hrequests, hread'⟩ := Evcc.reads_answer hcodec now hopen hanswer hgen hsome
          hframes hcoupled.evcc.room heq howed
        generalize e.call codec (.handleInput now data) = e' at htook hread' ⊢
        have hagrees : e'.conn.protocol = e'.flow.map Flow.protocol := by
          rw [htook.conn, htook.flow]
          exact hcoupled.agrees
        have hflow : e'.flow.isSome = true := by
          have hmap := congrArg Option.isSome htook.flow
          rw [Option.isSome_map, Option.isSome_map] at hmap
          exact hmap.trans (hcoupled.going hopen)
        have hplugged : e'.Plugged vehicle := Evcc.Plugged.took (e := e)
          ⟨hcoupled.evcc.config, hcoupled.evcc.limit, hcoupled.evcc.room, hframes⟩ htook
        have hprotocol : e'.conn.protocol = s.conn.protocol := by
          rw [htook.conn]
          exact hcoupled.protocol
        have hcoupled' : Coupled vehicle station e'.core s :=
          ⟨⟨hplugged.config, hplugged.limit, hplugged.room, hplugged.frames⟩, hcoupled.secc,
            hprotocol, hagrees, fun _ => hflow, hcoupled.met⟩
        have hconn := htook.conn
        rw [hconn, hrest, List.append_nil]
        show ∃ done' a' b' c', Booked codec vehicle station done' a' b' c' _ _ _ _ _
          (x ++ e.conn.tx) []
        rw [hu]
        rcases hread' with ⟨hresponses, hanswers⟩ | ⟨hresponses, hclosed⟩
        -- the exchange is over
        · refine ⟨done ++ [(r, m)], [], [], [], hcoupled', .rest htook.outstanding hidle', ?_, ?_,
            ?_, ?_, ?_⟩
          · intro y hy
            rcases List.mem_append.mp hy with hy | hy
            · exact hpairs y hy
            · rw [List.mem_singleton.mp hy]
              exact hanswers
          · rw [Evcc.requestsOf_append, hrequests, hasked]
            simp
          · rw [hshown]
            simp
          · rw [hgiven]
            simp
          · rw [Evcc.responsesOf_append, hresponses, hread]
            simp
        · refine ⟨done, [r], [r], [m], hcoupled', .failed htook.outstanding hclosed hidle', hpairs,
            ?_, hshown, hgiven, ?_⟩
          · rw [Evcc.requestsOf_append, hrequests, List.append_nil]
            exact hasked
          · rw [Evcc.responsesOf_append, hresponses, List.append_nil]
            exact hread

/-- The station reads: part of the request, which changes nothing, or the last of it; or it has
closed and takes no notice. -/
theorem Booked.stationReads {e : Evcc} {x rest : List UInt8} (hcodec : codec.Lossless) (s : Secc)
    (now : Instant) (data : List UInt8)
    (h : Booked codec vehicle station done a b c log evs given e s.core
      (s.conn.rx ++ data ++ rest) (x ++ s.conn.tx)) :
    ∃ b', Booked codec vehicle station done a b' c log
      (evs ++ s.emits codec (.handleInput now data)) given e
      (s.call codec (.handleInput now data)).core
      ((s.call codec (.handleInput now data)).conn.rx ++ rest)
      (x ++ (s.call codec (.handleInput now data)).conn.tx) := by
  have hframes : s.conn.frames = [] := h.coupled.secc.frames
  by_cases hnil : s.conn.rx ++ data ++ rest = []
  -- with nothing on the way up, there is nothing to read
  · obtain ⟨hcall, hemits, hdata, -⟩ := Secc.reads_nothing codec now hframes hnil
    rw [hcall, hemits, List.append_nil]
    rw [hdata, List.append_nil] at h
    exact ⟨b, h⟩
  · have hsame := h
    obtain ⟨hcoupled, hunderway, hpairs, hasked, hshown, hgiven, hread⟩ := h
    generalize hu : s.conn.rx ++ data ++ rest = u at hunderway hnil
    generalize hd : x ++ s.conn.tx = d at hunderway
    -- what a closed station does not read is lost
    have hignored : ∀ {r : Message}, e.outstanding = some r.name → e.closed = false →
        s.outstanding = none → s.closed = true → a = [r] → b = [] → c = [] → d = [] →
        ∃ b', Booked codec vehicle station done a b' c log
          (evs ++ s.emits codec (.handleInput now data)) given e
          (s.call codec (.handleInput now data)).core
          ((s.call codec (.handleInput now data)).conn.rx ++ rest)
          (x ++ (s.call codec (.handleInput now data)).conn.tx) := by
      rintro r howed hopen hidle' hclosed' rfl rfl rfl rfl
      have hcall := Secc.call_of_closed codec now data hclosed'
      rw [Secc.emits_of_events (by rw [hcall]), hcall, List.append_nil, hd]
      exact ⟨[], hcoupled, .lost howed hopen hidle' hclosed', hpairs, hasked, hshown, hgiven, hread⟩
    cases hunderway with
    -- bytes are on their way up only while a request is
    | rest _ _ => exact absurd rfl hnil
    | handed _ _ _ => exact absurd rfl hnil
    | answered _ _ _ _ _ => exact absurd rfl hnil
    | failed _ _ _ => exact absurd rfl hnil
    | lost howed hopen hidle' hclosed' =>
      exact hignored howed hopen hidle' hclosed' rfl rfl rfl rfl
    | @asked r frame payload howed hopen hidle' hgen hrequest =>
      have hidle' : s.outstanding = none := hidle'
      cases hclosed' : s.closed with
      | true => exact hignored howed hopen hidle' hclosed' rfl rfl rfl rfl
      | false =>
        rw [← show s.conn.maxPayloadLen = station.maxPayloadLen from hcoupled.secc.limit]
          at hrequest
        have hgen' : r.generation = s.conn.protocol := hgen.trans hcoupled.protocol
        have hsome : r.generation ≠ none := by
          rw [hgen]
          exact hcoupled.protocol_ne_none hopen
        rcases Secc.reads_cases now hclosed' hrequest hframes hu with
          ⟨hcore, hrx, htx, hemits⟩ | ⟨hrest, heq⟩
        · rw [hcore, hrx, htx, hemits, List.append_nil]
          exact ⟨_, hsame⟩
        · obtain ⟨htook, hread'⟩ := Secc.reads_request hcodec now hclosed' hidle' hrequest hgen'
            hsome hframes hcoupled.secc.room heq
          generalize s.call codec (.handleInput now data) = s' at htook hread' ⊢
          have hplugged : s'.Plugged station := Secc.Plugged.took (s := s)
            ⟨hcoupled.secc.config, hcoupled.secc.limit, hcoupled.secc.room, hframes⟩ htook
          have hprotocol : e.conn.protocol = s'.conn.protocol := by
            rw [htook.conn]
            exact hcoupled.protocol
          have hcoupled' : Coupled vehicle station e s'.core :=
            ⟨hcoupled.evcc, ⟨hplugged.config, hplugged.limit, hplugged.room, hplugged.frames⟩,
              hprotocol, hcoupled.agrees, hcoupled.going, htook.met⟩
          have hconn := htook.conn
          rw [hconn, hrest, List.append_nil]
          show ∃ b', Booked codec vehicle station done [r] b' [] _ _ _ _ _ [] (x ++ s.conn.tx)
          rw [hd]
          rcases hread' with ⟨hshown', howed'⟩ | ⟨hshown', hidle'', hclosed''⟩
          · refine ⟨[r], hcoupled', .handed howed hopen howed', hpairs, hasked, ?_, hgiven, hread⟩
            rw [Secc.shownIn_append, hshown', hshown, List.append_nil]
          · refine ⟨[], hcoupled', .lost howed hopen hidle'' hclosed'', hpairs, hasked, ?_, hgiven,
              hread⟩
            rw [Secc.shownIn_append, hshown', List.append_nil]
            exact hshown

end Steps

/-! ## The whole session

The rule for the link, with the handshake in front: during that nothing is asked, and behind it
`Booked` is kept by every move. -/

/-- The station's application answers with messages of the generation agreed on. -/
def OfSession (codec : Codec) (station : SeccConfig) (ss : List Secc.Call) (response : Message) :
    Prop :=
  response.generation = (Secc.after codec station ss).conn.protocol

variable {codec : Codec} {vehicle : EvccConfig} {station : SeccConfig}

/-- During the handshake nothing is asked, shown, answered or read. -/
theorem Opening.nothing {log : List Evcc.Act} {evs : List Secc.Event} {e : Evcc} {s : Secc}
    {u d : List UInt8} (h : Opening codec vehicle station log evs e s u d) :
    Evcc.requestsOf log = [] ∧ Secc.shownIn evs = [] ∧ Evcc.responsesOf log = [] := by
  cases h with
  | fresh hlog hevs he hs =>
    rw [hlog, hevs]
    exact ⟨rfl, rfl, rfl⟩
  | offered hlog hevs he hs h =>
    rw [hlog, hevs]
    exact ⟨rfl, rfl, rfl⟩
  | rejected hlog hevs he hs hnone h =>
    rw [hlog, hevs]
    exact ⟨rfl, rfl, rfl⟩
  | accepted hlog hevs he hs hsome hnew h =>
    rw [hlog, hevs]
    exact ⟨rfl, rfl, rfl⟩

/-- Opening or booked, the link keeps it. -/
theorem records_booked (hcodec : codec.Lossless) (hdelivers : Deliverable codec vehicle station)
    (hlimit : vehicle.maxPayloadLen = station.maxPayloadLen) :
    Link.Records codec vehicle station (OfSession codec station) fun log evs given e s u d =>
      (Opening codec vehicle station log evs e s u d ∧ given = [])
        ∨ ∃ done a b c, Booked codec vehicle station done a b c log evs given e s u d where
  start e h hidle hflow hopen hframes := by
    rcases h with ⟨h, hgiven⟩ | ⟨done, a, b, c, h⟩
    · exact .inl ⟨h.start e hidle hframes, hgiven⟩
    · have hsome : e.flow.isSome = true := h.coupled.going hopen
      rw [hflow] at hsome
      cases hsome
  request e m h hopen hidle _ hflow haccept hframes := by
    rcases h with ⟨h, -⟩ | ⟨done, a, b, c, h⟩
    · have hnone : e.flow = none := h.facts.flow
      rw [hflow] at hnone
      cases hnone
    · exact .inr ⟨_, _, _, _, h.request e m hlimit hopen hidle hflow haccept hframes⟩
  respond ss now response h howed hgen := by
    rcases h with ⟨h, -⟩ | ⟨done, a, b, c, h⟩
    -- the handshake surfaces nothing the application could answer
    · exact absurd h.facts.outstanding howed
    · obtain ⟨c', h'⟩ := h.respond ss now response hlimit howed hgen
      exact .inr ⟨_, _, _, _, h'⟩
  vehicleReads e now data h := by
    rcases h with ⟨h, hgiven⟩ | ⟨done, a, b, c, h⟩
    · rcases h.vehicleReads hcodec e now data with hopening | ⟨hopened, hup, hdown⟩
      · exact .inl ⟨hopening, hgiven⟩
      · rw [hup, hdown]
        exact .inr ⟨_, _, _, _, hopened.booked hgiven⟩
    · exact .inr (h.vehicleReads hcodec e now data)
  stationReads s now data h := by
    rcases h with ⟨h, hgiven⟩ | ⟨done, a, b, c, h⟩
    · exact .inl ⟨h.stationReads hcodec hdelivers s now data, hgiven⟩
    · obtain ⟨b', h'⟩ := h.stationReads hcodec s now data
      exact .inr ⟨_, _, _, _, h'⟩

/-- **Every message once, and in order**, however the link is run and whatever the two applications
do: the requests the vehicle has sent, those the station's application has been shown, the responses
it has given and those the vehicle's has been handed are the requests and responses of one list of
exchanges, and what there is so far of the next. -/
theorem exchanges_in_order (codec : Codec) (hcodec : codec.Lossless) (vehicle : EvccConfig)
    (station : SeccConfig) (hdelivers : Deliverable codec vehicle station)
    (hlimit : vehicle.maxPayloadLen = station.maxPayloadLen) (vs : List Evcc.Call)
    (ss : List Secc.Call) (up down : List UInt8)
    (h : Link codec vehicle station (OfSession codec station) vs ss up down) :
    InOrder (Evcc.requestsOf (Evcc.history codec vehicle vs))
      (Secc.shownIn (Secc.emitted codec station ss))
      ((Secc.queued codec station ss).map (stampedBy station))
      (Evcc.responsesOf (Evcc.history codec vehicle vs)) := by
  have hinvariant := h.recorded (records_booked hcodec hdelivers hlimit)
    (.inl ⟨.fresh rfl rfl rfl rfl, rfl⟩)
  rcases hinvariant with ⟨hopening, hgiven⟩ | ⟨done, a, b, c, hbooked⟩
  · obtain ⟨hasked, hshown, hread⟩ := hopening.nothing
    rw [hasked, hshown, hgiven, hread]
    exact ⟨[], [], [], [], fun x hx => (by cases hx), .settled, rfl, rfl, rfl, rfl⟩
  · exact ⟨done, a, b, c, hbooked.pairs, hbooked.underway.stage, hbooked.asked, hbooked.shown,
      hbooked.given, hbooked.read⟩

/-- The handshake and `SessionSetup` of -2: one exchange, which is over. -/
theorem exchanges_in_order_sessionSetup :
    InOrder
      (Evcc.requestsOf (Evcc.history Message.Golden.exchange Evcc.goldenVehicle
        [.start (.fromMillis 0), .takeTransmit,
         .handleInput (.fromMillis 2)
           (Message.Golden.frame .exiEncodedV2gMessage [0x80, 0x40, 0x00, 0x40]),
         .request (.fromMillis 3) Message.Golden.sessionSetupRequest, .takeTransmit,
         .handleInput (.fromMillis 6)
           (Message.Golden.frame .exiEncodedV2gMessage Message.Golden.sessionSetupRes)]))
      (Secc.shownIn (Secc.emitted Message.Golden.exchange Secc.goldenConfig
        [.handleInput (.fromMillis 1)
           (Message.Golden.frame .exiEncodedV2gMessage Message.Golden.reqIso2), .takeTransmit,
         .handleInput (.fromMillis 4)
           (Message.Golden.frame .exiEncodedV2gMessage Message.Golden.sessionSetupReq),
         .respond (.fromMillis 5) Message.Golden.sessionSetup, .takeTransmit]))
      ((Secc.queued Message.Golden.exchange Secc.goldenConfig
        [.handleInput (.fromMillis 1)
           (Message.Golden.frame .exiEncodedV2gMessage Message.Golden.reqIso2), .takeTransmit,
         .handleInput (.fromMillis 4)
           (Message.Golden.frame .exiEncodedV2gMessage Message.Golden.sessionSetupReq),
         .respond (.fromMillis 5) Message.Golden.sessionSetup, .takeTransmit]).map
        (stampedBy Secc.goldenConfig))
      (Evcc.responsesOf (Evcc.history Message.Golden.exchange Evcc.goldenVehicle
        [.start (.fromMillis 0), .takeTransmit,
         .handleInput (.fromMillis 2)
           (Message.Golden.frame .exiEncodedV2gMessage [0x80, 0x40, 0x00, 0x40]),
         .request (.fromMillis 3) Message.Golden.sessionSetupRequest, .takeTransmit,
         .handleInput (.fromMillis 6)
           (Message.Golden.frame .exiEncodedV2gMessage Message.Golden.sessionSetupRes)])) :=
  exchanges_in_order Message.Golden.exchange Message.Golden.lossless_exchange Evcc.goldenVehicle
    Secc.goldenConfig deliverable_golden rfl _ _ [] []
    (link_sessionSetup (by unfold OfSession; decide +kernel))

end Iso15118
