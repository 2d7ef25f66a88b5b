import Iso15118.Secc.Basic

/-!
# What a call can do to a station

The engine of `Secc/Basic` read backwards. Results about runs go by cases on these and never
unfold a handler again:

* **`Secc.Dispatched`** — what one message does to an open session, with
  **`Secc.dispatched_dispatch`**;
* **`Secc.Step`** — one step of a call that reads or answers, with what it puts on record: events,
  and responses queued;
* **`Secc.Expired`** — what a clock reading changes;
* **`Secc.Effect`** — what a call does, in these terms, with **`Secc.effect_call`** and the run
  rule **`Secc.invariant_of_effect`**.
-/

namespace Iso15118.Secc

open Iso15118.Lib Iso15118.Session
open Iso15118.Message (Codec Outcome)

/-! ## One message

The checks of `dispatch` taken apart once, in their order. Each case has what has been checked,
what is emitted and what is left. -/

/-- An open session, nothing to answer, and `m` is the next message. -/
structure Reads (codec : Codec) (s : Secc) (m : Message) (conn : Connection) : Prop where
  isOpen : s.closed = false
  idle : s.outstanding = none
  next : s.conn.nextMessage codec = (.ok (some m), conn)

/-- Why a message that was read is a fault of the stream. -/
inductive Faulty (s : Secc) : Message → Prop where
  | handshakeFailed (req : AppProtocol.Req) : Faulty s (.appProtocolReq req)
  | notARequest {m : Message} (h : m.isRequest = false) : Faulty s m
  | beforeHandshake {m : Message} (h : s.flow = none) : Faulty s m
  | unread {m : Message} {flow : Flow} (hflow : s.flow = some flow) (h : flow.reads m = false) :
      Faulty s m

/-- What dispatching `m` does to an open session: the events queued, the answer and the station.
Deadlines that no result here asks about are left open. -/
inductive Dispatched (s : Secc) (m : Message) :
    List Event → Except SeccError Unit × Secc → Prop where
  | fault (e : SeccError) (timers : Timers) (h : Faulty s m) :
      Dispatched s m [] (.error e, { s with timers := timers })
  | rejected (req : AppProtocol.Req) (frame : List UInt8) (timers : Timers)
      (hm : m = .appProtocolReq req) (hflow : s.flow = none) :
      Dispatched s m [.closed .noCommonProtocol] (.ok (),
        { s with
          timers := timers
          conn := { s.conn with tx := s.conn.tx ++ frame }
          closed := true
          events := s.events ++ [.closed .noCommonProtocol] })
  | agreed (req : AppProtocol.Req) (protocol : Protocol) (set : Option Iso20Set) (flow : Flow)
      (frame : List UInt8) (timers : Timers) (hm : m = .appProtocolReq req)
      (hflow : s.flow = none) (hnew : Flow.new protocol s.config.security = some flow)
      (hsetup : timers.deadline .communicationSetup = none) :
      Dispatched s m [.protocolAgreed protocol] (.ok (),
        { s with
          timers := timers
          conn := { s.conn with tx := s.conn.tx ++ frame, protocol := some protocol }
          iso20Set := set
          flow := some flow
          events := s.events ++ [.protocolAgreed protocol] })
  | unknown (due : Instant) (timers : Timers) (hm : ∀ req, m ≠ .appProtocolReq req)
      (hreq : m.isRequest = true) (hest : s.established = true)
      (hid : s.carriesTheSessionId m = false) :
      Dispatched s m
        [.refused m (unknownSessionCode s.conn.protocol) .unknownSession, .closed .refused] (.ok (),
        { s with
          timers := timers
          outstanding := some ⟨m.name, true, due⟩
          closed := true
          events := s.events ++ [.refused m (unknownSessionCode s.conn.protocol) .unknownSession,
            .closed .refused] })
  | accepted (flow flow' : Flow) (due : Instant) (phase : Option String) (timers : Timers)
      (hreq : m.isRequest = true)
      (hid : s.established = true → s.carriesTheSessionId m = true) (hflow : s.flow = some flow)
      (haccept : flow.accept m = (.ok (), flow'))
      (hsetup : timers.deadline .communicationSetup = s.timers.deadline .communicationSetup) :
      Dispatched s m [.request m] (.ok (),
        { s with
          timers := timers
          flow := some flow'
          established := s.established || m.name = "SessionSetupReq"
          outstanding := some ⟨m.name, false, due⟩
          phase := phase
          events := s.events ++ [.request m] })
  | refused (flow : Flow) (e : SequenceError) (event : Event) (due : Instant)
      (overdue : Option String) (timers : Timers) (hreq : m.isRequest = true)
      (hid : s.established = true → s.carriesTheSessionId m = true) (hflow : s.flow = some flow)
      (haccept : flow.accept m = (.error (.sequence e), flow))
      (hevent : event = .refused m e.responseCode (.sequence e)
        ∨ ∃ phase, event = .overdue m (failedCode s.conn.protocol) phase) :
      Dispatched s m [event, .closed .refused] (.ok (),
        { s with
          timers := timers
          outstanding := some ⟨m.name, true, due⟩
          overdue := overdue
          closed := true
          events := s.events ++ [event, .closed .refused] })

theorem close_of_open {s : Secc} (h : s.closed = false) (why : Close) :
    s.close why
      = { s with
          closed := true
          timers := s.timers.disarmAll
          events := s.events ++ [.closed why] } := by
  unfold close
  rw [if_neg (by simp [h])]

theorem close_of_closed {s : Secc} (h : s.closed = true) (why : Close) : s.close why = s :=
  if_pos h

theorem closeFatal_of_open {s : Secc} (h : s.closed = false) :
    s.closeFatal
      = { s with
          closed := true
          timers := s.timers.disarmAll
          conn := s.conn.resetInput
          outstanding := none
          events := s.events ++ [.closed .fatal] } := by
  unfold closeFatal
  rw [if_neg (by simp [h])]

theorem closeAfterRefusal_of_open {s : Secc} (h : s.closed = false) :
    s.closeAfterRefusal
      = { s with
          closed := true
          timers := s.timers.disarmAll
          events := s.events ++ [.closed .refused] } := by
  unfold closeAfterRefusal
  rw [if_neg (by simp [h])]

/-- A phase entered changes the phase and the loop budget. -/
theorem enterPhase_eq (s : Secc) (now : Instant) :
    ∃ phase timers, s.enterPhase now = { s with phase := phase, timers := timers }
      ∧ ∀ timer, timer ≠ .ongoing → timers.deadline timer = s.timers.deadline timer := by
  unfold enterPhase
  split
  · exact ⟨s.phase, s.timers, rfl, fun _ _ => rfl⟩
  · split
    · exact ⟨s.phase, s.timers, rfl, fun _ _ => rfl⟩
    · refine ⟨_, _, rfl, fun timer hne => ?_⟩
      split
      · exact Timers.deadline_arm_of_ne hne
      · exact Timers.deadline_disarm_of_ne hne

/-- The handshake is answered, and the session agreed on or closed with the answer; or it is a
fault. -/
theorem dispatched_handshake {codec : Codec} {s : Secc} {req : AppProtocol.Req}
    (timers₀ : Timers) (hopen : s.closed = false) :
    ∃ evs, Dispatched s (.appProtocolReq req) evs
      ({ s with timers := timers₀ }.handshake codec req) := by
  unfold handshake
  split
  · exact ⟨_, .fault _ timers₀ (.handshakeFailed req)⟩
  · next hflow =>
    have hnone : s.flow = none := by simpa using hflow
    dsimp only
    split
    · rcases s.conn.send_cases codec (.appProtocolRes .reject) with ⟨e, h⟩ | ⟨frame, -, h⟩
      · rw [h]
        exact ⟨_, .fault _ _ (.handshakeFailed req)⟩
      · rw [h]
        dsimp only
        rw [close_of_open (by exact hopen)]
        exact ⟨_, .rejected req frame _ rfl hnone⟩
    · next a flow hagreed =>
      obtain ⟨a', -, hnew⟩ := Option.bind_eq_some_iff.mp hagreed
      obtain ⟨flow', hnew, heq⟩ := Option.map_eq_some_iff.mp hnew
      cases heq
      -- an answer that cannot be sent is a fault, and the flow is not set up
      rcases s.conn.send_cases codec (.appProtocolRes (.accept a)) with ⟨e, h⟩ | ⟨frame, -, h⟩
      · rw [h]
        exact ⟨_, .fault _ _ (.handshakeFailed req)⟩
      · rw [h]
        exact ⟨_, .agreed req a.protocol a.iso20Set flow frame _ rfl hnone hnew (by simp)⟩

theorem dispatched_refuse {s : Secc} {now : Instant} {m : Message} {flow : Flow}
    {e : SequenceError} (timers : Timers) (hopen : s.closed = false) (hreq : m.isRequest = true)
    (hid : s.established = true → s.carriesTheSessionId m = true) (hflow : s.flow = some flow)
    (haccept : flow.accept m = (.error (.sequence e), flow)) :
    ∃ evs, Dispatched s m evs (.ok (), { s with timers := timers }.refuse now m e) := by
  unfold refuse
  dsimp only
  split
  · next phase hoverdue =>
    rw [closeAfterRefusal_of_open (by exact hopen)]
    simp only [emit, await, List.append_assoc]
    exact ⟨_, .refused flow e _ _ none _ hreq hid hflow haccept (.inr ⟨phase, rfl⟩)⟩
  · rw [closeAfterRefusal_of_open (by exact hopen)]
    simp only [emit, await, List.append_assoc]
    exact ⟨_, .refused flow e _ _ _ _ hreq hid hflow haccept (.inl rfl)⟩

/-- **What a message does to an open station.** It is a fault, or refused, or surfaced. -/
theorem dispatched_dispatch (codec : Codec) {s : Secc} (now : Instant) (m : Message)
    (hopen : s.closed = false) : ∃ evs, Dispatched s m evs (s.dispatch codec now m) := by
  unfold dispatch
  dsimp only
  split
  · exact dispatched_handshake _ hopen
  · next hm =>
    -- the checks in the source's order: a request by name, the session id, the flow
    split
    · next hreq => exact ⟨_, .fault _ _ (.notARequest (by simpa using hreq))⟩
    · next hreq =>
      have hreq : m.isRequest = true := by simpa using hreq
      split
      · next hid =>
        rw [closeAfterRefusal_of_open (by exact hopen)]
        simp only [emit, await, List.append_assoc]
        exact ⟨_, .unknown _ _ hm hreq hid.1 ((Bool.not_eq_true _).mp hid.2)⟩
      · next hid =>
        have hid : s.established = true → s.carriesTheSessionId m = true := by
          intro hest
          by_contra hno
          exact hid ⟨hest, hno⟩
        split
        · next hflow => exact ⟨_, .fault _ _ (.beforeHandshake hflow)⟩
        · next flow hflow =>
          have hflow : s.flow = some flow := hflow
          rcases flow.accept_cases m with ⟨hreads, h⟩ | ⟨-, e, h⟩ | ⟨-, flow', h, -⟩
          · rw [h]
            dsimp only
            rw [← hflow]
            exact ⟨_, .fault _ _ (.unread hflow hreads)⟩
          · rw [h]
            dsimp only
            rw [← hflow]
            exact dispatched_refuse _ hopen hreq hid hflow h
          -- the request is taken, and its phase is entered
          · rw [h]
            dsimp only
            obtain ⟨phase, timers, henter, htimers⟩ := enterPhase_eq
              { s with
                timers := s.timers.arm .sequence now s.config.sequenceTimeout
                flow := some flow'
                established := s.established || m.name = "SessionSetupReq" } now
            rw [henter]
            have hsetup := htimers .communicationSetup (by decide)
            rw [Timers.deadline_arm_of_ne (by decide)] at hsetup
            exact ⟨_, .accepted flow flow' _ phase timers hreq hid hflow h hsetup⟩

/-! ## Steps

A call that reads or answers takes several steps, each with its entries on record. The rules for
sequences of steps are those of `Lib.Run`. -/

/-- What a call puts on record: the events it queues, and the response it puts on the wire. -/
inductive Act where
  | event (event : Event)
  | answer (response : Message)

def Act.event? : Act → Option Event
  | .event e => some e
  | .answer _ => none

def Act.answer? : Act → Option Message
  | .event _ => none
  | .answer r => some r

def eventsOf (acts : List Act) : List Event := acts.filterMap Act.event?

def answersOf (acts : List Act) : List Message := acts.filterMap Act.answer?

@[simp] theorem eventsOf_nil : eventsOf [] = [] := rfl

@[simp] theorem answersOf_nil : answersOf [] = [] := rfl

@[simp] theorem eventsOf_append (xs ys : List Act) :
    eventsOf (xs ++ ys) = eventsOf xs ++ eventsOf ys := List.filterMap_append

@[simp] theorem answersOf_append (xs ys : List Act) :
    answersOf (xs ++ ys) = answersOf xs ++ answersOf ys := List.filterMap_append

@[simp] theorem eventsOf_event (e : Event) (acts : List Act) :
    eventsOf (.event e :: acts) = e :: eventsOf acts := rfl

@[simp] theorem eventsOf_answer (r : Message) (acts : List Act) :
    eventsOf (.answer r :: acts) = eventsOf acts := rfl

@[simp] theorem answersOf_event (e : Event) (acts : List Act) :
    answersOf (.event e :: acts) = answersOf acts := rfl

@[simp] theorem answersOf_answer (r : Message) (acts : List Act) :
    answersOf (.answer r :: acts) = r :: answersOf acts := rfl

@[simp] theorem eventsOf_map_event (evs : List Event) : eventsOf (evs.map .event) = evs := by
  induction evs with
  | nil => rfl
  | cons e evs ih => rw [List.map_cons, eventsOf_event, ih]

@[simp] theorem answersOf_map_event (evs : List Event) : answersOf (evs.map .event) = [] := by
  induction evs with
  | nil => rfl
  | cons e evs ih => rw [List.map_cons, answersOf_event, ih]

/-- The flow as it was, or told of a failure. -/
def SameOrFailed (flow flow' : Option Flow) : Prop :=
  flow' = flow ∨ flow' = flow.map Flow.recordFailure

/-- One step of a call that reads or answers. -/
inductive Step : Secc → List Act → Secc → Prop where
  | received {s : Secc} (conn : Connection) (hopen : s.closed = false)
      (hconn : s.conn.SameButInput conn) : Step s [] { s with conn := conn }
  | read {s s' : Secc} {m : Message} {evs : List Event} (hopen : s.closed = false)
      (hidle : s.outstanding = none) (h : Dispatched s m evs (.ok (), s')) :
      Step s (evs.map .event) s'
  | faulted {s : Secc} (conn : Connection) (hopen : s.closed = false)
      (hconn : s.conn.SameButInput conn) :
      Step s [.event (.closed .fatal)]
        { s with
          closed := true
          timers := s.timers.disarmAll
          conn := conn
          outstanding := none
          events := s.events ++ [.closed .fatal] }
  | spoiled {s : Secc} {flow : Option Flow} (hflow : SameOrFailed s.flow flow) :
      Step s [] { s with flow := flow }
  | answered {s : Secc} {flow : Option Flow} (response : Message) (o : Outstanding)
      (frame : List UInt8) (timers : Timers) (howed : s.outstanding = some o)
      (hflow : SameOrFailed s.flow flow)
      (hsetup : timers.deadline .communicationSetup = s.timers.deadline .communicationSetup) :
      Step s [.answer response]
        { s with
          flow := flow
          conn := { s.conn with tx := s.conn.tx ++ frame }
          outstanding := none
          timers := timers }
  | ended {s : Secc} {flow : Option Flow} (response : Message) (o : Outstanding)
      (frame : List UInt8) (why : Close) (hopen : s.closed = false)
      (howed : s.outstanding = some o) (hflow : SameOrFailed s.flow flow)
      (hwhy : why = .paused ∨ why = .normal) :
      Step s [.answer response, .event (.closed why)]
        { s with
          flow := flow
          conn := { s.conn with tx := s.conn.tx ++ frame }
          outstanding := none
          closed := true
          timers := s.timers.disarmAll
          events := s.events ++ [.closed why] }

/-- Events go behind those nobody has polled yet. -/
theorem events_of_step {s s' : Secc} {acts : List Act} (h : Step s acts s') :
    s'.events = s.events ++ eventsOf acts := by
  cases h with
  | received conn hopen hconn => simp
  | read hopen hidle h =>
    rw [eventsOf_map_event]
    cases h <;> rfl
  | faulted conn hopen hconn => rfl
  | spoiled hflow => simp
  | answered response o frame timers howed hflow hsetup => simp
  | ended response o frame why hopen howed hflow hwhy => simp

/-- What every step keeps of the events, the answers and the state, a sequence of steps keeps. -/
theorem invariant_of_steps {I : List Event → List Message → Secc → Prop} {s s' : Secc}
    {e : List Event} {a : List Message} {acts : List Act}
    (next : ∀ evs answers s acts s', I evs answers s → Step s acts s' →
      I (evs ++ eventsOf acts) (answers ++ answersOf acts) s')
    (hs : I e a s) (h : Steps Step s acts s') :
    I (e ++ eventsOf acts) (a ++ answersOf acts) s' := by
  refine h.invariant (g := []) (I := fun log t => I (e ++ eventsOf log) (a ++ answersOf log) t)
    ?_ ?_
  · intro log t l t' ht hstep
    rw [eventsOf_append, answersOf_append, ← List.append_assoc, ← List.append_assoc]
    exact next _ _ t l t' ht hstep
  · rw [eventsOf_nil, answersOf_nil, List.append_nil, List.append_nil]
    exact hs

theorem events_of_steps {s s' : Secc} {acts : List Act} (h : Steps Step s acts s') :
    s'.events = s.events ++ eventsOf acts := by
  have hnil : s.events = s.events ++ [] := (List.append_nil _).symm
  refine invariant_of_steps (a := []) (I := fun evs _ t => t.events = s.events ++ evs) ?_ hnil h
  intro evs _ t l t' hevs hstep
  rw [events_of_step hstep, hevs, List.append_assoc]

/-! ## Reading

The pump is a sequence of steps, by induction on the turns it has left. It is over as soon as
something has been surfaced. -/

/-- Nothing more is read in this state. -/
def AtRest (s : Secc) : Prop := s.closed = true ∨ s.outstanding.isSome = true

theorem pump_of_atRest {s : Secc} (codec : Codec) (now : Instant) (h : s.AtRest) :
    s.pump codec now = (.ok (), s) := by
  rw [pump, if_pos (show s.closed = true ∨ s.outstanding.isSome = true from h)]

/-- Once a protocol is agreed, a message dispatched without a fault leaves the session at rest. -/
theorem Dispatched.atRest {s s' : Secc} {m : Message} {evs : List Event}
    (h : Dispatched s m evs (.ok (), s')) (hflow : s.flow.isSome = true) : s'.AtRest := by
  cases h with
  | rejected req frame timers hm hnone => exact .inl rfl
  | agreed req protocol set flow frame timers hm hnone hnew hsetup =>
    rw [hnone] at hflow
    cases hflow
  | unknown due timers hm hreq hest hid => exact .inl rfl
  | accepted flow flow' due phase timers hreq hid hflow haccept hsetup => exact .inr rfl
  | refused flow e event due overdue timers hreq hid hflow haccept hevent => exact .inl rfl

/-- Once a protocol is agreed, the pump reads one message and no more. -/
theorem pump_of_reads {codec : Codec} {s : Secc} {m : Message} {conn : Connection}
    (now : Instant) (hread : Reads codec s m conn) (hflow : s.flow.isSome = true) :
    s.pump codec now = { s with conn := conn }.dispatch codec now m := by
  rw [pump, if_neg (by simp [hread.isOpen, hread.idle]), hread.next]
  dsimp only
  obtain ⟨evs, h⟩ := dispatched_dispatch codec (s := { s with conn := conn }) now m hread.isOpen
  generalize { s with conn := conn }.dispatch codec now m = out at h
  obtain ⟨result, s'⟩ := out
  cases result with
  | error e => rfl
  | ok _ => exact pump_of_atRest codec now (h.atRest hflow)

theorem step_closeFatal {s : Secc} (conn : Connection) (timers : Timers)
    (hopen : s.closed = false) (hconn : s.conn.SameButInput conn) :
    Step s [.event (.closed .fatal)] { s with conn := conn, timers := timers }.closeFatal := by
  rw [closeFatal_of_open (by exact hopen)]
  exact .faulted conn.resetInput hopen ⟨hconn.protocol, hconn.tx⟩

/-- The steps of a call that reads: it goes frame by frame, and answers nothing itself. -/
theorem steps_pump (codec : Codec) (s : Secc) (now : Instant) :
    ∃ acts, Steps Step s acts (closeOnError (s.pump codec now)).2 ∧ answersOf acts = [] := by
  fun_induction pump codec s now with
  | case1 s hrest => exact ⟨[], .refl s, rfl⟩
  | case2 s hrest e conn hnext =>
    rw [not_or] at hrest
    have hconn := s.conn.sameButInput_nextMessage codec
    rw [hnext] at hconn
    exact ⟨_, .single (step_closeFatal conn s.timers (by simpa using hrest.1) hconn), rfl⟩
  | case3 s hrest conn hnext =>
    rw [not_or] at hrest
    have hconn := s.conn.sameButInput_nextMessage codec
    rw [hnext] at hconn
    exact ⟨_, .single (.received conn (by simpa using hrest.1) hconn), rfl⟩
  | case4 s hrest m conn hnext e s' hdispatch =>
    -- a message that is a fault has changed nothing but the timers when the session closes
    rw [not_or] at hrest
    have hopen : s.closed = false := by simpa using hrest.1
    have hconn := s.conn.sameButInput_nextMessage codec
    rw [hnext] at hconn
    obtain ⟨evs, h⟩ := dispatched_dispatch codec (s := { s with conn := conn }) now m hopen
    rw [hdispatch] at h
    cases h with
    | fault e timers hfault => exact ⟨_, .single (step_closeFatal conn timers hopen hconn), rfl⟩
  | case5 s hrest m conn hnext s' hdispatch ih =>
    rw [not_or] at hrest
    have hopen : s.closed = false := by simpa using hrest.1
    have hidle : s.outstanding = none := by simpa using hrest.2
    have hconn := s.conn.sameButInput_nextMessage codec
    rw [hnext] at hconn
    obtain ⟨evs, h⟩ := dispatched_dispatch codec (s := { s with conn := conn }) now m hopen
    rw [hdispatch] at h
    obtain ⟨acts, hsteps, hanswers⟩ := ih
    refine ⟨_, .head (.received conn hopen hconn) (.head (.read hopen hidle h) hsteps), ?_⟩
    simp [hanswers]

/-! ## Answering

A response is either turned away or queued. Once it is queued, the session waits for the next
request or ends, and the pump may go on with what was buffered. -/

/-- **What checking and queuing a response does.** It is turned away, with the flow told of a
failure if it was one; or it is put on the wire, and is the response the outstanding request
asks for unless that was refused. -/
theorem answer_cases (codec : Codec) (s : Secc) (response : Message) :
    (∃ e flow, s.answer codec response = (.error e, { s with flow := flow })
        ∧ SameOrFailed s.flow flow)
      ∨ ∃ o flow frame, s.answer codec response
            = (.ok (),
              { s with
                flow := flow
                conn := { s.conn with tx := s.conn.tx ++ frame }
                outstanding := none })
          ∧ s.outstanding = some o ∧ SameOrFailed s.flow flow ∧ response.isRequest = false
          ∧ (o.refused = false → response.answers o.name = true) ∧ frame ≠ [] := by
  unfold answer
  split
  -- a request is no answer
  · exact .inl ⟨_, s.flow, rfl, .inl rfl⟩
  · next hreq =>
    split
    · exact .inl ⟨_, s.flow, rfl, .inl rfl⟩
    -- nothing is owed
    · next o howed =>
      split
      · exact .inl ⟨_, s.flow, rfl, .inl rfl⟩
      · next hpairs =>
        have hpairs : o.refused = false → response.answers o.name = true := by
          intro hrefused
          by_contra hno
          exact hpairs ⟨by simp [hrefused], hno⟩
        dsimp only
        split
        · exact .inl ⟨_, s.flow, rfl, .inl rfl⟩
        · -- the failure is recorded before the response is sent, and stays when it cannot be
          generalize (response.setSessionId s.config.sessionId).2 = stamped
          obtain ⟨flow, hflow, htold⟩ : ∃ flow, SameOrFailed s.flow flow
              ∧ (if stamped.outcome.any Outcome.isFailure = true then
                  { s with flow := s.flow.map Flow.recordFailure } else s)
                = { s with flow := flow } := by
            split
            · exact ⟨_, .inr rfl, rfl⟩
            · exact ⟨s.flow, .inl rfl, rfl⟩
          rw [htold]
          rcases s.conn.send_cases codec stamped with ⟨e, h⟩ | ⟨frame, hframe, h⟩
          · rw [h]
            exact .inl ⟨_, flow, rfl, hflow⟩
          · rw [h]
            -- the frame is queued, and nothing is owed from then on
            exact .inr ⟨o, flow, frame, rfl, howed, hflow, by simpa using hreq, hpairs, hframe⟩

/-- What a queued response is followed by: the wait for the next request, or the end. -/
inductive Settled (s : Secc) : Secc → Prop where
  | waiting (timers : Timers)
      (hsetup : timers.deadline .communicationSetup = s.timers.deadline .communicationSetup) :
      Settled s { s with timers := timers }
  | finished (why : Close) (hopen : s.closed = false) (hwhy : why = .paused ∨ why = .normal) :
      Settled s
        { s with
          closed := true
          timers := s.timers.disarmAll
          events := s.events ++ [.closed why] }

theorem settled_close (s : Secc) {why : Close} (hwhy : why = .paused ∨ why = .normal) :
    Settled s (s.close why) := by
  cases hclosed : s.closed with
  | true =>
    rw [close_of_closed hclosed]
    exact .waiting s.timers rfl
  | false =>
    rw [close_of_open hclosed]
    exact .finished why hclosed hwhy

theorem settled_settle (s : Secc) (now : Instant) : Settled s (s.settle now) := by
  unfold settle
  split
  · exact settled_close s (.inl rfl)
  · split
    · exact settled_close s (.inr rfl)
    · split
      · exact .waiting s.timers rfl
      · exact .waiting _ (Timers.deadline_arm_of_ne (by decide))

/-- The steps of `Secc.respond`. -/
theorem steps_respond (codec : Codec) (s : Secc) (now : Instant) (response : Message) :
    ∃ acts, Steps Step s acts (s.respond codec now response).2
      ∧ answersOf acts = s.queues codec (.respond now response) := by
  rcases s.answer_cases codec response with
    ⟨e, flow, h, hflow⟩ | ⟨o, flow, frame, h, howed, hflow, -⟩
  · have hqueues : s.queues codec (.respond now response) = [] := by simp only [queues, h]
    rw [hqueues, respond, h]
    exact ⟨[], .single (.spoiled hflow), rfl⟩
  · have hqueues : s.queues codec (.respond now response) = [response] := by simp only [queues, h]
    rw [hqueues, respond, h]
    dsimp only
    -- what is left of the call is the pump on the settled session
    generalize hs' : Secc.mk .. = s'
    obtain ⟨acts, hsteps, hanswers⟩ := steps_pump codec (s'.settle now) now
    have hsettled := settled_settle s' now
    generalize s'.settle now = t at hsettled hsteps ⊢
    subst hs'
    cases hsettled with
    | waiting timers hsetup =>
      refine ⟨_, .head (.answered response o frame timers howed hflow hsetup) hsteps, ?_⟩
      rw [answersOf_append, hanswers]
      rfl
    | finished why hopen hwhy =>
      refine ⟨_, .head (.ended response o frame why hopen howed hflow hwhy) hsteps, ?_⟩
      rw [answersOf_append, hanswers]
      rfl

/-! ## The clock

More than one timer may be due at one reading. They are handled in order, and only the loop
budget lets the reading go on. -/

/-- A timer that ends the session is due. -/
def Overrun (s : Secc) (now : Instant) (timer : Timer) : Prop :=
  timer ≠ .ongoing ∧ ∃ d ∈ s.timers.deadline timer, d ≤ now

/-- What a clock reading changes. -/
inductive Expired (s : Secc) (now : Instant) : List Event → Secc → Prop where
  | kept {flow : Option Flow} (timers : Timers) (overdue : Option String)
      (hflow : SameOrFailed s.flow flow)
      (hdue : s.closed = false → ∀ timer, ¬ s.Overrun now timer)
      (htimers : s.closed = false → ∀ timer, timer ≠ .ongoing →
        timers.deadline timer = s.timers.deadline timer) :
      Expired s now [] { s with timers := timers, flow := flow, overdue := overdue }
  | timedOut {flow : Option Flow} (timer : Timer) (timers : Timers) (overdue : Option String)
      (hopen : s.closed = false) (hflow : SameOrFailed s.flow flow)
      (hdue : s.Overrun now timer) :
      Expired s now [.closed (.timeout timer)]
        { s with
          timers := timers
          flow := flow
          overdue := overdue
          closed := true
          events := s.events ++ [.closed (.timeout timer)] }

theorem recordFailure_twice (flow : Option Flow) :
    (flow.map Flow.recordFailure).map Flow.recordFailure = flow.map Flow.recordFailure := by
  cases flow with
  | none => rfl
  | some flow => cases flow <;> rfl

theorem SameOrFailed.of_failed {flow flow' : Option Flow}
    (h : SameOrFailed (flow.map Flow.recordFailure) flow') : SameOrFailed flow flow' := by
  rcases h with h | h
  · exact .inr h
  · rw [recordFailure_twice] at h
    exact .inr h

/-- Once the session is over, a clock reading disarms what it finds due and nothing else. -/
theorem handleTimeout_of_closed {s : Secc} (now : Instant) (h : s.closed = true) :
    ∃ timers, s.handleTimeout now = { s with timers := timers } := by
  fun_induction handleTimeout s now with
  | case1 s timers hexpired => exact ⟨s.timers, rfl⟩
  | case2 s timer timers hexpired ih =>
    have hexpire : { s with timers := timers }.expire timer = { s with timers := timers } := by
      unfold expire
      rw [if_neg (by simp [h]), close_of_closed (by exact h)]
    rw [hexpire] at ih ⊢
    exact ih h

theorem expire_ongoing {s : Secc} (h : s.closed = false) :
    s.expire .ongoing
      = { s with
          overdue := some (s.flow.elim "unknown" Flow.phaseName)
          flow := s.flow.map Flow.recordFailure } := by
  unfold expire
  rw [if_pos (by simp [h])]

theorem expire_of_ne {s : Secc} {timer : Timer} (hne : timer ≠ .ongoing) :
    s.expire timer = s.close (.timeout timer) := by
  unfold expire
  rw [if_neg (by simp [hne])]

/-- By induction on the timers the reading finds due: the loop budget is noted and the reading goes
on, any other ends the session. -/
theorem expired_of_open {s : Secc} (now : Instant) (hopen : s.closed = false) :
    ∃ evs, Expired s now evs (s.handleTimeout now) := by
  fun_induction handleTimeout s now with
  | case1 s timers hexpired =>
    rcases s.timers.expired_cases now with ⟨-, hnone⟩ | ⟨timer, d, h, -⟩
    -- nothing is due: the timers stay
    · refine ⟨[], .kept s.timers s.overdue (.inl rfl) (fun _ timer hdue => ?_) fun _ _ _ => rfl⟩
      obtain ⟨-, d, hd, hle⟩ := hdue
      exact hnone timer d hd hle
    · rw [h] at hexpired
      cases hexpired
  | case2 s timer timers hexpired ih =>
    rcases s.timers.expired_cases now with ⟨h, -⟩ | ⟨timer', d, h, hd, hle⟩
    · rw [h] at hexpired
      cases hexpired
    rw [h] at hexpired
    cases hexpired
    by_cases hne : timer = .ongoing
    · -- the reading goes on: what it finds later was due before the loop budget was noted
      subst hne
      have hother : ∀ timer, timer ≠ .ongoing →
          (s.timers.disarm .ongoing).deadline timer = s.timers.deadline timer :=
        fun timer hne => Timers.deadline_disarm_of_ne hne
      rw [expire_ongoing (by exact hopen)] at ih ⊢
      obtain ⟨evs, ih⟩ := ih hopen
      generalize handleTimeout _ now = out at ih ⊢
      cases ih with
      | kept timers overdue hflow hdue htimers =>
        refine ⟨[], .kept timers overdue hflow.of_failed (fun _ timer hdue' => ?_) ?_⟩
        · obtain ⟨hne, d, hd, hle⟩ := hdue'
          exact hdue hopen timer ⟨hne, d, (hother timer hne).trans hd, hle⟩
        · intro _ timer hne
          exact (htimers hopen timer hne).trans (hother timer hne)
      | timedOut timer timers overdue _ hflow hdue =>
        obtain ⟨hne, d, hd, hle⟩ := hdue
        exact ⟨_, .timedOut timer timers overdue hopen hflow.of_failed
          ⟨hne, d, (hother timer hne).symm.trans hd, hle⟩⟩
    -- any other timer ends the session, and nothing is due in a closed one
    · rw [expire_of_ne hne, close_of_open (by exact hopen)]
      obtain ⟨timers, hrest⟩ := handleTimeout_of_closed
        (s := { s with
          closed := true
          timers := (s.timers.disarm timer).disarmAll
          events := s.events ++ [.closed (.timeout timer)] }) now rfl
      rw [hrest]
      exact ⟨_, .timedOut timer timers s.overdue hopen (.inl rfl) ⟨hne, d, hd, hle⟩⟩

/-- **What a clock reading does.** -/
theorem expired_handleTimeout (s : Secc) (now : Instant) :
    ∃ evs, Expired s now evs (s.handleTimeout now) := by
  cases hclosed : s.closed with
  | false => exact expired_of_open now hclosed
  | true =>
    obtain ⟨timers, h⟩ := handleTimeout_of_closed now hclosed
    rw [h]
    exact ⟨[], .kept timers s.overdue (.inl rfl) (fun hopen => by simp [hclosed] at hopen)
      fun hopen => by simp [hclosed] at hopen⟩

/-! ## Calls

All calls together: what each does and what it puts on record. Everything proved later about a
station starts from `effect_call`. -/

/-- The call reads or answers. -/
def Call.drives : Call → Bool
  | .handleInput _ _ | .respond _ _ => true
  | _ => false

/-- What a call does, and what it puts on record. -/
inductive Effect (s : Secc) : Call → List Act → Secc → Prop where
  | opened (now : Instant) : Effect s (.opened now) [] (s.opened now)
  | polled : Effect s .pollEvent [] { s with events := s.events.tail }
  | taken : Effect s .takeTransmit [] { s with conn := { s.conn with tx := [] } }
  | ticked {s' : Secc} {evs : List Event} (now : Instant) (h : Expired s now evs s') :
      Effect s (.handleTimeout now) (evs.map .event) s'
  | joined (sessionId : SessionId) :
      Effect s (.joinSession sessionId) [] (s.joinSession sessionId)
  | resumed {sessionId : SessionId} {transfer : Iso20.EnergyTransfer} (flow flow' : Flow)
      (hflow : s.flow = some flow) (hprotocol : flow'.protocol = flow.protocol) :
      Effect s (.resume sessionId transfer) []
        ({ s with flow := some flow' }.joinSession sessionId)
  | notResumed {sessionId : SessionId} {transfer : Iso20.EnergyTransfer} :
      Effect s (.resume sessionId transfer) [] s
  | driven {c : Call} {s' : Secc} {acts : List Act} (hc : c.drives = true)
      (h : Steps Step s acts s') : Effect s c acts s'

theorem steps_handleInput (codec : Codec) (s : Secc) (now : Instant) (data : List UInt8) :
    ∃ acts, Steps Step s acts (s.handleInput codec now data).2 ∧ answersOf acts = [] := by
  unfold handleInput
  split
  · exact ⟨[], .refl s, rfl⟩
  · next hclosed =>
    have hopen : s.closed = false := by simpa using hclosed
    have hconn := s.conn.sameButInput_receive data
    split
    · next e conn h =>
      rw [h] at hconn
      exact ⟨_, .single (step_closeFatal conn s.timers hopen hconn), rfl⟩
    · next conn h =>
      rw [h] at hconn
      obtain ⟨acts, hsteps, hanswers⟩ := steps_pump codec { s with conn := conn } now
      exact ⟨_, .head (.received conn hopen hconn) hsteps, hanswers⟩

theorem effect_resume (s : Secc) (sessionId : SessionId) (transfer : Iso20.EnergyTransfer) :
    Effect s (.resume sessionId transfer) [] (s.resume sessionId transfer).2 := by
  unfold resume
  split
  · exact .notResumed
  · next flow hflow =>
    split
    · exact .notResumed
    · next flow' h => exact .resumed flow flow' hflow (Flow.protocol_of_resume h)

/-- A call that reads does what the pump does, and closes the session on a fault. -/
theorem call_of_reading {codec : Codec} {s t : Secc} {c : Call} {now : Instant}
    (h : s.reading codec c = some (t, now)) :
    s.call codec c = (closeOnError (t.pump codec now)).2 := by
  cases c with
  | handleInput now' data =>
    simp only [reading] at h
    split at h
    · cases h
    · next hopen =>
      split at h
      · next conn hreceive =>
        cases h
        simp only [call, handleInput, if_neg hopen, hreceive]
      · cases h
  | respond now' response =>
    simp only [reading] at h
    split at h
    · next s' hanswer =>
      cases h
      simp only [call, respond, hanswer]
    · cases h
  | opened now' => cases h
  | joinSession sessionId => cases h
  | resume sessionId transfer => cases h
  | handleTimeout now' => cases h
  | pollEvent => cases h
  | takeTransmit => cases h

/-- What has changed when a call starts to read, in a session that is still open. -/
theorem reading_eq {codec : Codec} {s t : Secc} {c : Call} {now : Instant}
    (h : s.reading codec c = some (t, now)) (hopen : t.closed = false) :
    ∃ conn flow outstanding timers,
      t = { s with conn := conn, flow := flow, outstanding := outstanding, timers := timers }
        ∧ conn.protocol = s.conn.protocol ∧ SameOrFailed s.flow flow := by
  cases c with
  -- bytes are taken in, and nothing else moves
  | handleInput now' data =>
    have hconn := s.conn.sameButInput_receive data
    simp only [reading] at h
    split at h
    · cases h
    · split at h
      · next conn hreceive =>
        cases h
        rw [hreceive] at hconn
        exact ⟨conn, s.flow, s.outstanding, s.timers, rfl, hconn.protocol, .inl rfl⟩
      · cases h
  -- a response is sent, and what comes after it is read if the session is open
  | respond now' response =>
    rcases s.answer_cases codec response with
      ⟨e, flow, hanswer, -⟩ | ⟨o, flow, frame, hanswer, -, hflow, -⟩
    · simp only [reading, hanswer] at h
      cases h
    · simp only [reading, hanswer] at h
      cases h
      generalize hs' : Secc.mk .. = s' at hopen ⊢
      have hsettled := settled_settle s' now
      generalize s'.settle now = t at hsettled hopen ⊢
      subst hs'
      cases hsettled with
      | waiting timers hsetup => exact ⟨_, flow, none, timers, rfl, rfl, hflow⟩
      | finished why hopen' hwhy => cases hopen
  | opened now' => cases h
  | joinSession sessionId => cases h
  | resume sessionId transfer => cases h
  | handleTimeout now' => cases h
  | pollEvent => cases h
  | takeTransmit => cases h

/-- What a call puts on record is what it emits, when it only adds to the events. -/
theorem emits_eq {codec : Codec} {s : Secc} {c : Call} {evs : List Event}
    (h : (s.call codec c).events = s.events ++ evs) : s.emits codec c = evs := by
  rw [emits, h, List.drop_left]

/-- **What a call does.** -/
theorem effect_call (codec : Codec) (s : Secc) (c : Call) :
    ∃ acts, Effect s c acts (s.call codec c) ∧ eventsOf acts = s.emits codec c
      ∧ answersOf acts = s.queues codec c := by
  cases c with
  | opened now => exact ⟨[], .opened now, (emits_eq (List.append_nil _).symm).symm, rfl⟩
  | handleInput now data =>
    obtain ⟨acts, hsteps, hanswers⟩ := steps_handleInput codec s now data
    refine ⟨acts, .driven rfl hsteps, ?_, hanswers⟩
    exact (emits_eq (events_of_steps hsteps)).symm
  | respond now response =>
    obtain ⟨acts, hsteps, hanswers⟩ := steps_respond codec s now response
    refine ⟨acts, .driven rfl hsteps, ?_, hanswers⟩
    exact (emits_eq (events_of_steps hsteps)).symm
  | joinSession sessionId =>
    exact ⟨[], .joined sessionId, (emits_eq (List.append_nil _).symm).symm, rfl⟩
  | resume sessionId transfer =>
    have heffect := effect_resume s sessionId transfer
    refine ⟨[], heffect, (emits_eq ?_).symm, rfl⟩
    show (s.resume sessionId transfer).2.events = s.events ++ []
    generalize (s.resume sessionId transfer).2 = out at heffect
    cases heffect with
    | resumed flow flow' hflow hprotocol => exact (List.append_nil _).symm
    | notResumed => exact (List.append_nil _).symm
    | driven hc h => cases hc
  | handleTimeout now =>
    obtain ⟨evs, h⟩ := expired_handleTimeout s now
    refine ⟨evs.map .event, .ticked now h, ?_, answersOf_map_event evs⟩
    rw [eventsOf_map_event]
    refine (emits_eq ?_).symm
    show (s.handleTimeout now).events = s.events ++ evs
    generalize s.handleTimeout now = out at h
    cases h with
    | kept timers overdue hflow hdue htimers => exact (List.append_nil _).symm
    | timedOut timer timers overdue hopen hflow hdue => rfl
  | pollEvent =>
    -- the queue is shorter than it was, so what is new behind it is nothing
    refine ⟨[], .polled, ?_, rfl⟩
    exact (List.drop_eq_nil_of_le (by simp [call, pollEvent])).symm
  | takeTransmit => exact ⟨[], .taken, (emits_eq (List.append_nil _).symm).symm, rfl⟩

/-- **The run rule.** What holds of a new station and is kept by every call, of what was emitted,
what was answered and the state, holds of every run. -/
theorem invariant_of_effect {I : List Event → List Message → Secc → Prop} (codec : Codec)
    (config : SeccConfig) (new : I [] [] (.new config))
    (next : ∀ evs answers s c acts s', I evs answers s → Effect s c acts s' →
      I (evs ++ eventsOf acts) (answers ++ answersOf acts) s') (calls : List Call) :
    I (emitted codec config calls) (queued codec config calls) (after codec config calls) := by
  induction calls using List.reverseRecOn with
  | nil => exact new
  | append_singleton calls c ih =>
    obtain ⟨acts, heffect, hevents, hanswers⟩ := effect_call codec (after codec config calls) c
    have h := next _ _ _ c acts _ ih heffect
    rw [hevents, hanswers] at h
    simpa using h

end Iso15118.Secc
