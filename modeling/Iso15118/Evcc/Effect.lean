import Iso15118.Evcc.Basic

/-!
# What a call can do to a vehicle

The engine of `Evcc/Basic` read backwards, as `Secc/Effect` reads the station's:

* **`Evcc.Dispatched`** — what one message does to an open session, with
  **`Evcc.dispatched_dispatch`**;
* **`Evcc.Reads`** — the messages a call gets to dispatch, and **`Evcc.Step`** — one step of it;
* **`Evcc.Effect`** — what a call does, with **`Evcc.effect_call`** and the run rule
  **`Evcc.invariant_of_effect`**.
-/

namespace Iso15118.Evcc

open Iso15118.Lib Iso15118.Session
open Iso15118.Message (Codec Outcome)

/-! ## One message

The checks of `dispatch` taken apart once. Each way through them is a case with what it has
checked and what it leaves. -/

/-- `m` pairs with the request that waits for an answer. -/
structure Answers (s : Evcc) (m : Message) (expected : String) : Prop where
  owed : s.outstanding = some expected
  response : m.isRequest = false
  pairs : m.answers expected = true

/-- What the session id of a response leaves: the id of the session, and whether there is one. -/
inductive Identified (s : Evcc) (m : Message) : SessionId → Bool → Prop where
  | unread (h : m.sessionId = none) : Identified s m s.sessionId s.established
  | assigned (id : SessionId) (h : m.sessionId = some id) (hnew : s.established = false)
      (hid : id.isNone = false) : Identified s m id true
  | repeated (h : m.sessionId = some s.sessionId) (hest : s.established = true) :
      Identified s m s.sessionId s.established

/-- The flow once a response has been read. -/
def told (flow : Option Flow) (m : Message) : Option Flow :=
  if m.outcome.any Outcome.isFailure then flow.map Flow.recordFailure else flow

/-- What dispatching `m` does to an open session: the events queued, the answer and the vehicle. -/
inductive Dispatched (s : Evcc) (now : Instant) (m : Message) :
    List Event → Except EvccError Unit × Evcc → Prop where
  | fault (e : EvccError) (timers : Timers) (outstanding : Option String)
      (answeredAt : Option Instant) :
      Dispatched s now m []
        (.error e,
          { s with timers := timers, outstanding := outstanding, answeredAt := answeredAt })
  | rejected {expected : String} (res : AppProtocol.Res) (set : Option Iso20Set)
      (hm : m = .appProtocolRes res) (hans : Answers s m expected) :
      Dispatched s now m [.closed .noCommonProtocol] (.ok (),
        { s with
          timers := s.timers.disarmAll
          outstanding := none
          answeredAt := some now
          iso20Set := set
          closed := true
          events := s.events ++ [.closed .noCommonProtocol] })
  | agreed {expected : String} (res : AppProtocol.Res) (protocol : Protocol)
      (set : Option Iso20Set) (flow : Flow) (hm : m = .appProtocolRes res)
      (hans : Answers s m expected) (hnew : Flow.new protocol s.config.security = some flow) :
      Dispatched s now m [.protocolAgreed protocol] (.ok (),
        { s with
          timers := s.timers.disarm .message
          outstanding := none
          answeredAt := some now
          iso20Set := set
          conn := s.conn.setProtocol protocol
          flow := some flow
          events := s.events ++ [.protocolAgreed protocol] })
  | surfaced {expected : String} {id : SessionId} {est : Bool} (more : List Event)
      (timers : Timers) (hm : ∀ res, m ≠ .appProtocolRes res) (hans : Answers s m expected)
      (hid : Identified s m id est) (hmore : more = [] ∨ more = [.failed])
      (hongoing : timers.deadline .ongoing = s.timers.deadline .ongoing)
      (hsetup : est = s.established →
        timers.deadline .communicationSetup = s.timers.deadline .communicationSetup)
      (hgoes : ending (told s.flow m) = none) :
      Dispatched s now m (.response m :: more) (.ok (),
        { s with
          timers := timers
          outstanding := none
          answeredAt := some now
          sessionId := id
          established := est
          flow := told s.flow m
          events := s.events ++ .response m :: more })
  | ended {expected : String} {id : SessionId} {est : Bool} (why : Close)
      (hm : ∀ res, m ≠ .appProtocolRes res) (hans : Answers s m expected)
      (hid : Identified s m id est) (hwhy : ending (told s.flow m) = some why) :
      Dispatched s now m [.response m, .closed why] (.ok (),
        { s with
          timers := s.timers.disarmAll
          outstanding := none
          answeredAt := some now
          sessionId := id
          established := est
          flow := told s.flow m
          closed := true
          events := s.events ++ [.response m, .closed why] })

theorem close_of_open {s : Evcc} (h : s.closed = false) (why : Close) :
    s.close why
      = { s with
          closed := true
          timers := s.timers.disarmAll
          events := s.events ++ [.closed why] } := by
  unfold close
  rw [if_neg (by simp [h])]

theorem close_of_closed {s : Evcc} (h : s.closed = true) (why : Close) : s.close why = s :=
  if_pos h

theorem closeFatal_of_open {s : Evcc} (h : s.closed = false) :
    s.closeFatal
      = { s with
          closed := true
          timers := s.timers.disarmAll
          conn := s.conn.resetInput
          outstanding := none
          events := s.events ++ [.closed .fatal] } := by
  unfold closeFatal
  rw [if_neg (by simp [h]), close_of_open (by exact h)]

/-- **What is made of a session id.** The response is turned away, or the id is taken over, seen
to be the same, or not looked at. -/
theorem checkSessionId_cases (s : Evcc) (m : Message) :
    (∃ e, s.checkSessionId m = .error e)
      ∨ ∃ id est timers, Identified s m id est
          ∧ s.checkSessionId m
              = .ok { s with sessionId := id, established := est, timers := timers }
          ∧ timers.deadline .ongoing = s.timers.deadline .ongoing
          ∧ (est = s.established →
              timers.deadline .communicationSetup = s.timers.deadline .communicationSetup) := by
  unfold checkSessionId
  split
  · next id hid =>
    split
    · next hnew =>
      have hnew : s.established = false := by simpa using hnew
      split
      · exact .inl ⟨_, rfl⟩
      · next hzero =>
        refine .inr ⟨id, true, _, .assigned id hid hnew (by simpa using hzero), rfl, ?_, ?_⟩
        · exact Timers.deadline_disarm_of_ne (by decide)
        · intro hest
          rw [hnew] at hest
          cases hest
    · next hest =>
      split
      · exact .inl ⟨_, rfl⟩
      · next hsame =>
        have hid : m.sessionId = some s.sessionId := by
          rw [hid, Decidable.not_not.mp hsame]
        exact .inr ⟨_, _, s.timers, .repeated hid (by simpa using hest), rfl, rfl, fun _ => rfl⟩
  · next hid => exact .inr ⟨_, _, s.timers, .unread hid, rfl, rfl, fun _ => rfl⟩

/-- A response is shown, and either ends the session with its own outcome or leaves it open. -/
theorem surface_eq {s : Evcc} (m : Message) (hopen : s.closed = false) :
    (∃ why, ending (told s.flow m) = some why
        ∧ s.surface m
          = { s with
              flow := told s.flow m
              closed := true
              timers := s.timers.disarmAll
              events := s.events ++ [.response m, .closed why] })
      ∨ ∃ more, (more = [] ∨ more = [.failed]) ∧ ending (told s.flow m) = none
          ∧ s.surface m
            = { s with flow := told s.flow m, events := s.events ++ .response m :: more } := by
  unfold surface
  dsimp only
  rw [show (if m.outcome.any Outcome.isFailure = true then s.flow.map Flow.recordFailure
    else s.flow) = told s.flow m from rfl]
  split
  · next why hwhy =>
    rw [close_of_open (by exact hopen)]
    simp only [emit, List.append_assoc, List.singleton_append]
    exact .inl ⟨why, hwhy, rfl⟩
  · next hgoes =>
    split
    · refine .inr ⟨[.failed], .inr rfl, hgoes, ?_⟩
      simp only [emit, List.append_assoc, List.singleton_append]
    · exact .inr ⟨[], .inl rfl, hgoes, rfl⟩

/-- The answer to the handshake brings a protocol, or ends the session, or is a fault. -/
theorem dispatched_handshake {s : Evcc} {now : Instant} {m : Message} {expected : String}
    (res : AppProtocol.Res) (hm : m = .appProtocolRes res) (hans : Answers s m expected)
    (hopen : s.closed = false) :
    ∃ evs, Dispatched s now m evs
      ({ s with
          timers := s.timers.disarm .message
          outstanding := none
          answeredAt := some now }.handshake res) := by
  unfold handshake
  split
  · rw [close_of_open (by exact hopen)]
    exact ⟨_, .rejected res _ hm hans⟩
  · dsimp only
    split
    · exact ⟨_, .fault _ _ _ _⟩
    · next protocol set hchosen =>
      split
      · rw [close_of_open (by exact hopen)]
        exact ⟨_, .rejected res set hm hans⟩
      · next flow hnew => exact ⟨_, .agreed res protocol set flow hm hans hnew⟩

/-- **What a message does to an open vehicle.** It is a fault, or it answers the request that waits
and is surfaced. -/
theorem dispatched_dispatch {s : Evcc} (now : Instant) (m : Message) (hopen : s.closed = false) :
    ∃ evs, Dispatched s now m evs (s.dispatch now m) := by
  unfold dispatch
  split
  · exact ⟨_, .fault _ s.timers s.outstanding s.answeredAt⟩
  · next hreq =>
    split
    · exact ⟨_, .fault _ s.timers s.outstanding s.answeredAt⟩
    · next expected howed =>
      split
      · exact ⟨_, .fault _ s.timers s.outstanding s.answeredAt⟩
      · next hpairs =>
        have hans : Answers s m expected :=
          ⟨howed, by simpa using hreq, Decidable.not_not.mp hpairs⟩
        dsimp only
        split
        -- the answer to the handshake is kept apart, for no id is in it
        · next res => exact dispatched_handshake res rfl hans hopen
        · next hm =>
          have hm : ∀ res, m ≠ .appProtocolRes res := fun res h => hm res h
          -- of any other the id is compared before the flow sees it
          rcases checkSessionId_cases
            { s with
              timers := s.timers.disarm .message
              outstanding := none
              answeredAt := some now } m with ⟨e, h⟩ | ⟨id, est, timers, hid, h, hongoing, hsetup⟩
          · rw [h]
            exact ⟨_, .fault _ _ _ _⟩
          · rw [h]
            -- the id was compared with the session's own, which the answer has not touched
            have hid : Identified s m id est := by
              cases hid with
              | unread hread => exact .unread hread
              | assigned id hread hnew hzero => exact .assigned _ hread hnew hzero
              | repeated hread hest => exact .repeated hread hest
            have hongoing : timers.deadline .ongoing = s.timers.deadline .ongoing :=
              hongoing.trans (Timers.deadline_disarm_of_ne (by decide))
            have hsetup : est = s.established →
                timers.deadline .communicationSetup = s.timers.deadline .communicationSetup :=
              fun hest => (hsetup hest).trans (Timers.deadline_disarm_of_ne (by decide))
            dsimp only
            rcases surface_eq (s := { s with
                timers := timers
                outstanding := none
                answeredAt := some now
                sessionId := id
                established := est }) m hopen with ⟨why, hwhy, h⟩ | ⟨more, hmore, hgoes, h⟩
            · rw [h]
              exact ⟨_, .ended why hm hans hid hwhy⟩
            · rw [h]
              exact ⟨_, .surfaced more timers hm hans hid hmore hongoing hsetup hgoes⟩

/-! ## Steps

A call that reads takes its messages one after another. `Step` is one of them, or the end of the
session over a fault. -/

/-- `Evcc.drain` from `s` gets to dispatch `m`, in `t`. -/
inductive Reads (codec : Codec) (now : Instant) : Evcc → Evcc → Message → Prop where
  | here {s : Evcc} {m : Message} {conn : Connection}
      (h : s.conn.nextMessage codec = (.ok (some m), conn)) :
      Reads codec now s { s with conn := conn } m
  | later {s s' t : Evcc} {m m' : Message} {conn : Connection}
      (h : s.conn.nextMessage codec = (.ok (some m), conn))
      (hdispatch : { s with conn := conn }.dispatch now m = (.ok (), s'))
      (hopen : s'.closed = false) (rest : Reads codec now s' t m') : Reads codec now s t m'

/-- The messages a call gets to dispatch, with the state each is dispatched in. -/
def ReadBy (codec : Codec) (s : Evcc) : Call → Evcc → Message → Prop
  | .handleInput now data, t, m =>
      s.closed = false ∧ ∃ conn, s.conn.receive data = (.ok (), conn)
        ∧ Reads codec now { s with conn := conn } t m
  | _, _, _ => False

/-- One step of a call that dispatches the messages `R`. -/
inductive Step (R : Evcc → Message → Prop) : Evcc → List Act → Evcc → Prop where
  | received {s : Evcc} (conn : Connection) (hopen : s.closed = false)
      (hconn : s.conn.SameButInput conn) : Step R s [] { s with conn := conn }
  | read {s s' : Evcc} {m : Message} {evs : List Event} (now : Instant) (hopen : s.closed = false)
      (hread : R s m) (hgen : m.generation = s.conn.protocol)
      (h : Dispatched s now m evs (.ok (), s')) : Step R s (evs.map .event) s'
  | faulted {s : Evcc} (conn : Connection) (answeredAt : Option Instant)
      (hopen : s.closed = false) (hconn : s.conn.SameButInput conn) :
      Step R s [.event (.closed .fatal)]
        { s with
          closed := true
          timers := s.timers.disarmAll
          conn := conn
          outstanding := none
          answeredAt := answeredAt
          events := s.events ++ [.closed .fatal] }

theorem events_of_dispatched {s s' : Evcc} {now : Instant} {m : Message} {evs : List Event}
    (h : Dispatched s now m evs (.ok (), s')) : s'.events = s.events ++ evs := by
  cases h <;> rfl

/-- The steps put events behind those nobody has polled yet, and nothing else on record. -/
theorem acts_of_steps {R : Evcc → Message → Prop} {s s' : Evcc} {acts : List Act}
    (h : Steps (Step R) s acts s') :
    ∃ evs, acts = evs.map .event ∧ s'.events = s.events ++ evs := by
  refine h.invariant (g := [])
    (I := fun log t => ∃ evs, log = evs.map .event ∧ t.events = s.events ++ evs) ?_
    ⟨[], rfl, (List.append_nil _).symm⟩
  rintro log t l t' ⟨evs, rfl, hevs⟩ hstep
  cases hstep with
  | received conn hopen hconn => exact ⟨evs, List.append_nil _, hevs⟩
  | read now hopen hread hgen h =>
    refine ⟨evs ++ _, List.map_append.symm, ?_⟩
    rw [events_of_dispatched h, hevs, List.append_assoc]
  | faulted conn answeredAt hopen hconn =>
    refine ⟨evs ++ [.closed .fatal], by simp, ?_⟩
    show t.events ++ _ = _
    rw [hevs, List.append_assoc]

/-! ## Reading

The loop over the frames is a sequence of steps, by induction on the turns it has left. -/

theorem step_closeFatal {R : Evcc → Message → Prop} {s : Evcc} (conn : Connection) (timers : Timers)
    (outstanding : Option String) (answeredAt : Option Instant) (hopen : s.closed = false)
    (hconn : s.conn.SameButInput conn) :
    Step R s [.event (.closed .fatal)]
      { s with
        conn := conn
        timers := timers
        outstanding := outstanding
        answeredAt := answeredAt }.closeFatal := by
  rw [closeFatal_of_open (by exact hopen)]
  exact .faulted conn.resetInput answeredAt hopen ⟨hconn.protocol, hconn.tx⟩

/-- The steps of a call that reads: it goes frame by frame, up to a fault or the end. -/
theorem steps_drain {R : Evcc → Message → Prop} (codec : Codec) {s : Evcc} (now : Instant)
    (hopen : s.closed = false) (hR : ∀ t m, Reads codec now s t m → R t m) :
    ∃ acts, Steps (Step R) s acts (closeOnError (s.drain codec now)).2
      ∧ (∀ e, (s.drain codec now).1 = .error e → .event (.closed .fatal) ∈ acts) := by
  have hconn := s.conn.sameButInput_nextMessage codec
  fun_induction drain codec s now with
  | case1 s e conn hnext =>
    rw [hnext] at hconn
    exact ⟨_, .single (step_closeFatal conn s.timers s.outstanding s.answeredAt hopen hconn),
      fun _ _ => List.mem_singleton_self _⟩
  -- there is no whole message left
  | case2 s conn hnext =>
    rw [hnext] at hconn
    exact ⟨_, .single (.received conn hopen hconn), fun e h => by cases h⟩
  | case3 s m conn hnext e s' hdispatch =>
    -- a message that is a fault has changed nothing that closing the session keeps
    rw [hnext] at hconn
    obtain ⟨evs, h⟩ := dispatched_dispatch (s := { s with conn := conn }) now m hopen
    rw [hdispatch] at h
    cases h with
    | fault e timers outstanding answeredAt =>
      exact ⟨_, .single (step_closeFatal conn timers outstanding answeredAt hopen hconn),
        fun _ _ => List.mem_singleton_self _⟩
  -- the session ends with the message
  | case4 s m conn hnext s' hdispatch hclosed =>
    rw [hnext] at hconn
    have hgen := Connection.generation_of_nextMessage hnext
    obtain ⟨evs, h⟩ := dispatched_dispatch (s := { s with conn := conn }) now m hopen
    rw [hdispatch] at h
    exact ⟨_, .head (.received conn hopen hconn) (.single (.read now hopen
      (hR _ m (.here hnext)) hgen h)), fun e h => by cases h⟩
  -- the session goes on, and so does the reading
  | case5 s m conn hnext s' hdispatch hclosed ih =>
    rw [hnext] at hconn
    have hgen := Connection.generation_of_nextMessage hnext
    obtain ⟨evs, h⟩ := dispatched_dispatch (s := { s with conn := conn }) now m hopen
    rw [hdispatch] at h
    have hopen' : s'.closed = false := by simpa using hclosed
    obtain ⟨acts, hsteps, hfatal⟩ := ih hopen'
      (fun t m' hrest => hR t m' (.later hnext hdispatch hopen' hrest))
      (s'.conn.sameButInput_nextMessage codec)
    exact ⟨_, .head (.received conn hopen hconn)
      (.head (.read now hopen (hR _ m (.here hnext)) hgen h) hsteps),
      fun e he => List.mem_append_right _ (List.mem_append_right _ (hfatal e he))⟩

@[simp] theorem fst_closeOnError (out : Except EvccError Unit × Evcc) :
    (closeOnError out).1 = out.1 := by
  unfold closeOnError
  split <;> rfl

/-- An input is read step by step, and an error of it is on record as the end of the session. -/
theorem steps_handleInput (codec : Codec) (s : Evcc) (now : Instant) (data : List UInt8) :
    ∃ acts, Steps (Step (s.ReadBy codec (.handleInput now data))) s acts
      (s.handleInput codec now data).2
      ∧ (∀ e, (s.handleInput codec now data).1 = .error e → .event (.closed .fatal) ∈ acts) := by
  unfold handleInput
  split
  · exact ⟨[], .refl s, fun e h => by cases h⟩
  · next hclosed =>
    have hopen : s.closed = false := by simpa using hclosed
    have hconn := s.conn.sameButInput_receive data
    split
    · next e conn h =>
      rw [h] at hconn
      exact ⟨_, .single (step_closeFatal conn s.timers s.outstanding s.answeredAt hopen hconn),
        fun _ _ => List.mem_singleton_self _⟩
    · next conn h =>
      rw [h] at hconn
      obtain ⟨acts, hsteps, hfatal⟩ := steps_drain codec (s := { s with conn := conn }) now hopen
        fun t m hread => (⟨hopen, conn, h, hread⟩ : s.ReadBy codec (.handleInput now data) t m)
      refine ⟨_, .head (.received conn hopen hconn) hsteps, fun e he => ?_⟩
      refine hfatal e ?_
      rwa [fst_closeOnError] at he

/-! ## Asking

Starting and asking either change nothing or do all of it. -/

/-- What `Evcc.start` offers. -/
def offered (config : EvccConfig) : AppProtocol.Req :=
  .advertisingWith (advertised config) config.iso20Sets

/-- **What starting does.** Nothing, or the offer is on the wire and both timers run. -/
theorem start_cases (codec : Codec) (s : Evcc) (now : Instant) :
    (∃ e, s.start codec now = (.error e, s))
      ∨ ∃ frame, s.outstanding = none ∧ s.flow = none ∧ s.closed = false
          ∧ s.conn.send codec (.appProtocolReq (offered s.config))
              = (.ok (), { s.conn with tx := s.conn.tx ++ frame })
          ∧ s.start codec now
            = (.ok (),
              { s with
                conn := { s.conn with tx := s.conn.tx ++ frame }
                offer := some (offered s.config)
                timers :=
                  (s.timers.arm .communicationSetup now s.config.setupTimeout).arm .message now
                    (s.config.messageTimeout.getD Timing.Iso2.msgTimeoutDefault)
                outstanding := some "supportedAppProtocolReq" }) := by
  unfold start
  split
  · exact .inl ⟨_, rfl⟩
  · next hidle =>
    rw [not_or, not_or] at hidle
    dsimp only
    split
    · exact .inl ⟨_, rfl⟩
    · rcases s.conn.send_cases codec (.appProtocolReq (offered s.config)) with
        ⟨e, h⟩ | ⟨frame, -, h⟩
      · rw [show AppProtocol.Req.advertisingWith (advertised s.config) s.config.iso20Sets
          = offered s.config from rfl, h]
        exact .inl ⟨_, rfl⟩
      · rw [show AppProtocol.Req.advertisingWith (advertised s.config) s.config.iso20Sets
          = offered s.config from rfl, h]
        exact .inr ⟨frame, by simpa using hidle.1, by simpa using hidle.2.1,
          by simpa using hidle.2.2, rfl, rfl⟩

/-- The loop budget once `flow` has moved: a phase that goes on keeps it, a new one starts it. -/
structure Budgeted (s : Evcc) (now : Instant) (flow : Flow) (phase : Option String)
    (timers : Timers) : Prop where
  phase : phase = some flow.phaseName
  ongoing : timers.deadline .ongoing
    = if s.phase = some flow.phaseName then s.timers.deadline .ongoing
      else (flow.loopTimeout .evcc s.config.loopBudgets).map now.saturatingAdd
  setup : timers.deadline .communicationSetup = s.timers.deadline .communicationSetup

/-- Entering a phase arms its loop budget if the phase is new, and nothing otherwise. -/
theorem enterPhase_eq {s : Evcc} (now : Instant) {flow : Flow} (hflow : s.flow = some flow) :
    ∃ phase timers, Budgeted s now flow phase timers
      ∧ s.enterPhase now = { s with phase := phase, timers := timers } := by
  unfold enterPhase
  rw [hflow]
  dsimp only
  split
  · next hsame =>
    refine ⟨s.phase, s.timers, ⟨hsame, ?_, rfl⟩, ?_⟩
    · rw [if_pos hsame]
    · rw [← hflow]
  · next hnew =>
    rw [← hflow]
    refine ⟨_, _, ⟨rfl, ?_, ?_⟩, rfl⟩
    · rw [if_neg hnew]
      split
      · next budget hbudget => rw [hbudget, Timers.deadline_arm_self, Option.map_some]
      · next hbudget => rw [hbudget, Timers.deadline_disarm_self, Option.map_none]
    · split
      · exact Timers.deadline_arm_of_ne (by decide)
      · exact Timers.deadline_disarm_of_ne (by decide)

/-- **What asking does.** Nothing, or the request is on the wire with the session id in it, and the
flow, the phase and the timers have moved with it. -/
theorem request_cases (codec : Codec) (s : Evcc) (now : Instant) (m : Message) :
    (∃ e, s.request codec now m = (.error e, s))
      ∨ ∃ flow flow' frame phase timers, s.closed = false ∧ s.outstanding = none
          ∧ m.isRequest = true ∧ s.flow = some flow
          ∧ flow.accept (m.setSessionId s.sessionId).2 = (.ok (), flow')
          ∧ Budgeted s now flow' phase timers
          ∧ s.conn.send codec (m.setSessionId s.sessionId).2
              = (.ok (), { s.conn with tx := s.conn.tx ++ frame })
          ∧ s.request codec now m
            = (.ok (),
              { s with
                conn := { s.conn with tx := s.conn.tx ++ frame }
                flow := some flow'
                phase := phase
                timers := timers
                outstanding := some m.name }) := by
  unfold request
  -- a request that is turned away by a check leaves the vehicle as it was
  split
  · exact .inl ⟨_, rfl⟩
  · next hopen =>
    split
    · exact .inl ⟨_, rfl⟩
    · next hreq =>
      split
      · exact .inl ⟨_, rfl⟩
      · exact .inl ⟨_, rfl⟩
      · next flow hidle hflow =>
        split
        · exact .inl ⟨_, rfl⟩
        · next hpermits =>
          -- the session id is stamped after the check, and the flow does not look at it
          obtain ⟨flow', haccept⟩ := Flow.exists_accept_of_permits hpermits
          rw [← flow.accept_setSessionId m s.sessionId] at haccept
          dsimp only
          rcases s.conn.send_cases codec (m.setSessionId s.sessionId).2 with
            ⟨e, hsend⟩ | ⟨frame, -, hsend⟩
          -- and so does one that cannot be sent
          · rw [hsend]
            exact .inl ⟨_, rfl⟩
          -- sent: the flow moves on, and the timers start
          · rw [hsend, haccept]
            dsimp only
            obtain ⟨phase, timers, hbudget, henter⟩ := enterPhase_eq
              (s := { s with
                conn := { s.conn with tx := s.conn.tx ++ frame }
                flow := some flow' }) now rfl
            rw [henter]
            let budget := s.config.messageTimeout.getD
              (responseTimeout (m.setSessionId s.sessionId).2)
            refine .inr ⟨flow, flow', frame, phase, timers.arm .message now budget,
              by simpa using hopen, hidle, Decidable.not_not.mp hreq, hflow, haccept,
              ⟨hbudget.phase, ?_, ?_⟩, rfl, ?_⟩
            · rw [Timers.deadline_arm_of_ne (by decide), hbudget.ongoing]
            · rw [Timers.deadline_arm_of_ne (by decide), hbudget.setup]
            · rw [await, (m.sameButHeader_setSessionId s.sessionId).name]

/-! ## The clock

Every timer that runs out ends the session, so only the first that is due matters. -/

/-- What a clock reading changes. -/
inductive Expired (s : Evcc) (now : Instant) : List Event → Evcc → Prop where
  | quiet (hdue : ∀ timer d, s.timers.deadline timer = some d → ¬ d ≤ now) : Expired s now [] s
  | timedOut {timer : Timer} {d : Instant} (hopen : s.closed = false)
      (hd : s.timers.deadline timer = some d) (hle : d ≤ now) :
      Expired s now [.closed (.timeout timer)]
        { s with
          closed := true
          timers := s.timers.disarmAll
          events := s.events ++ [.closed (.timeout timer)] }
  | past (timers : Timers) (hclosed : s.closed = true)
      (htimers : ∀ timer, s.timers.deadline timer = none → timers.deadline timer = none) :
      Expired s now [] { s with timers := timers }

theorem handleTimeout_of_closed {s : Evcc} (now : Instant) (h : s.closed = true) :
    ∃ timers, s.handleTimeout now = { s with timers := timers }
      ∧ ∀ timer, s.timers.deadline timer = none → timers.deadline timer = none := by
  fun_induction handleTimeout s now with
  | case1 s timers hexpired => exact ⟨s.timers, rfl, fun _ h => h⟩
  | case2 s timer timers hexpired ih =>
    rcases s.timers.expired_cases now with ⟨h', -⟩ | ⟨timer', d, h', hd, -⟩
    · rw [h'] at hexpired
      cases hexpired
    · rw [h'] at hexpired
      cases hexpired
      rw [close_of_closed (by exact h)] at ih ⊢
      obtain ⟨timers, heq, htimers⟩ := ih h
      refine ⟨timers, heq, fun other hother => htimers other ?_⟩
      by_cases hne : other = timer
      · rw [hne]
        exact Timers.deadline_disarm_self ..
      · exact (Timers.deadline_disarm_of_ne hne).trans hother

/-- With nothing running there is nothing to expire. -/
theorem handleTimeout_of_idle {s : Evcc} (now : Instant)
    (h : ∀ timer, s.timers.deadline timer = none) : s.handleTimeout now = s := by
  rw [handleTimeout]
  split
  · rfl
  · next hexpired =>
    rcases s.timers.expired_cases now with ⟨h', -⟩ | ⟨timer, d, h', hd, -⟩
    · rw [h'] at hexpired
      cases hexpired
    · rw [h timer] at hd
      cases hd

/-- **What a clock reading does.** -/
theorem expired_handleTimeout (s : Evcc) (now : Instant) :
    ∃ evs, Expired s now evs (s.handleTimeout now) := by
  cases hclosed : s.closed with
  | true =>
    obtain ⟨timers, h, htimers⟩ := handleTimeout_of_closed now hclosed
    rw [h]
    exact ⟨[], .past timers hclosed htimers⟩
  | false =>
    rw [handleTimeout]
    rcases s.timers.expired_cases now with ⟨h, hdue⟩ | ⟨timer, d, h, hd, hle⟩
    · split
      · exact ⟨[], .quiet hdue⟩
      · next hexpired =>
        rw [h] at hexpired
        cases hexpired
    · split
      · next hexpired =>
        rw [h] at hexpired
        cases hexpired
      · next hexpired =>
        rw [h] at hexpired
        cases hexpired
        -- the first timer to expire stops all the others
        rw [close_of_open (by exact hclosed), handleTimeout_of_idle now (fun _ => rfl)]
        exact ⟨_, .timedOut hclosed hd hle⟩

/-! ## Calls

All calls together: what each does and what it puts on record. Everything proved later about a
vehicle starts from `effect_call`. -/

/-- The call asks for something. -/
def Call.asks : Call → Bool
  | .start _ | .request _ _ => true
  | _ => false

/-- What a call does, and what it puts on record. -/
inductive Effect (codec : Codec) (s : Evcc) : Call → List Act → Evcc → Prop where
  | started (now : Instant) (frame : List UInt8) (hidle : s.outstanding = none)
      (hflow : s.flow = none) (hopen : s.closed = false) :
      Effect codec s (.start now) [.sent (.appProtocolReq (offered s.config))]
        { s with
          conn := { s.conn with tx := s.conn.tx ++ frame }
          offer := some (offered s.config)
          timers :=
            (s.timers.arm .communicationSetup now s.config.setupTimeout).arm .message now
              (s.config.messageTimeout.getD Timing.Iso2.msgTimeoutDefault)
          outstanding := some "supportedAppProtocolReq" }
  | asked {m : Message} (now : Instant) (flow flow' : Flow) (frame : List UInt8)
      (phase : Option String) (timers : Timers) (hopen : s.closed = false)
      (hidle : s.outstanding = none) (hreq : m.isRequest = true) (hflow : s.flow = some flow)
      (haccept : flow.accept (m.setSessionId s.sessionId).2 = (.ok (), flow'))
      (hbudget : Budgeted s now flow' phase timers) :
      Effect codec s (.request now m) [.sent (m.setSessionId s.sessionId).2]
        { s with
          conn := { s.conn with tx := s.conn.tx ++ frame }
          flow := some flow'
          phase := phase
          timers := timers
          outstanding := some m.name }
  | refused {c : Call} (hc : c.asks = true) : Effect codec s c [] s
  | polled : Effect codec s .pollEvent [] { s with events := s.events.tail }
  | taken : Effect codec s .takeTransmit [] { s with conn := { s.conn with tx := [] } }
  | ticked {s' : Evcc} {evs : List Event} (now : Instant) (h : Expired s now evs s') :
      Effect codec s (.handleTimeout now) (evs.map .event) s'
  | resumed {transfer : Iso20.EnergyTransfer} (flow flow' : Flow) (hflow : s.flow = some flow)
      (h : flow.resume transfer = .ok flow') :
      Effect codec s (.resume transfer) [] { s with flow := some flow' }
  | notResumed {transfer : Iso20.EnergyTransfer} : Effect codec s (.resume transfer) [] s
  | driven {s' : Evcc} {acts : List Act} (now : Instant) (data : List UInt8)
      (h : Steps (Step (s.ReadBy codec (.handleInput now data))) s acts s') :
      Effect codec s (.handleInput now data) acts s'

/-- A call that only adds events puts those on record, and one that sends what it sends. -/
theorem logs_eq (codec : Codec) {s : Evcc} (c : Call) {evs : List Event}
    (hsends : s.sends codec c = []) (h : (s.call codec c).events = s.events ++ evs) :
    s.logs codec c = evs.map .event := by
  rw [logs, hsends, emits, h, List.drop_left, List.map_nil, List.nil_append]

theorem logs_of_sends {codec : Codec} {s : Evcc} {c : Call} {sent : List Message}
    (hsends : s.sends codec c = sent) (h : (s.call codec c).events = s.events) :
    s.logs codec c = sent.map .sent := by
  rw [logs, hsends, emits, h, List.drop_length, List.map_nil, List.append_nil]

theorem effect_start (codec : Codec) (s : Evcc) (now : Instant) :
    Effect codec s (.start now) (s.logs codec (.start now)) (s.call codec (.start now)) := by
  rcases s.start_cases codec now with ⟨e, h⟩ | ⟨frame, hidle, hflow, hopen, -, h⟩
  · have hcall : s.call codec (.start now) = s := congrArg Prod.snd h
    have hsends : s.sends codec (.start now) = [] := by simp only [sends, h]
    rw [logs_of_sends hsends (by rw [hcall]), hcall]
    exact .refused rfl
  · have hcall : s.call codec (.start now) = _ := congrArg Prod.snd h
    have hsends : s.sends codec (.start now) = [.appProtocolReq (offered s.config)] := by
      simp only [sends, h]
      rfl
    rw [logs_of_sends hsends (by rw [hcall]), hcall]
    exact .started now frame hidle hflow hopen

theorem effect_request (codec : Codec) (s : Evcc) (now : Instant) (m : Message) :
    Effect codec s (.request now m) (s.logs codec (.request now m))
      (s.call codec (.request now m)) := by
  rcases s.request_cases codec now m with ⟨e, h⟩ |
    ⟨flow, flow', frame, phase, timers, hopen, hidle, hreq, hflow, haccept, hbudget, -, h⟩
  · have hcall : s.call codec (.request now m) = s := congrArg Prod.snd h
    have hsends : s.sends codec (.request now m) = [] := by simp only [sends, h]
    rw [logs_of_sends hsends (by rw [hcall]), hcall]
    exact .refused rfl
  · have hcall : s.call codec (.request now m) = _ := congrArg Prod.snd h
    have hsends : s.sends codec (.request now m) = [(m.setSessionId s.sessionId).2] := by
      simp only [sends, h]
    rw [logs_of_sends hsends (by rw [hcall]), hcall]
    exact .asked now flow flow' frame phase timers hopen hidle hreq hflow haccept hbudget

/-- **What a call does.** -/
theorem effect_call (codec : Codec) (s : Evcc) (c : Call) :
    Effect codec s c (s.logs codec c) (s.call codec c) := by
  cases c with
  | start now => exact effect_start codec s now
  | request now m => exact effect_request codec s now m
  | handleInput now data =>
    obtain ⟨acts, hsteps, -⟩ := steps_handleInput codec s now data
    obtain ⟨evs, rfl, hevents⟩ := acts_of_steps hsteps
    rw [logs_eq codec (.handleInput now data) rfl hevents]
    exact .driven now data hsteps
  -- to resume shows nothing, whether it is allowed or not
  | resume transfer =>
    have hresume : Effect codec s (.resume transfer) [] (s.resume transfer).2
        ∧ (s.resume transfer).2.events = s.events ++ [] := by
      unfold resume
      split
      · exact ⟨.notResumed, (List.append_nil _).symm⟩
      · next flow hflow =>
        split
        · exact ⟨.notResumed, (List.append_nil _).symm⟩
        · next flow' h => exact ⟨.resumed flow flow' hflow h, (List.append_nil _).symm⟩
    rw [logs_eq codec (.resume transfer) rfl hresume.2]
    exact hresume.1
  -- a deadline shows what has expired
  | handleTimeout now =>
    obtain ⟨evs, h⟩ := expired_handleTimeout s now
    have hevents : (s.handleTimeout now).events = s.events ++ evs := by
      generalize s.handleTimeout now = out at h
      cases h with
      | quiet hdue => exact (List.append_nil _).symm
      | timedOut hopen hd hle => rfl
      | past timers hclosed htimers => exact (List.append_nil _).symm
    rw [logs_eq codec (.handleTimeout now) rfl hevents]
    exact .ticked now h
  | pollEvent =>
    -- the queue is shorter than it was, so what is new behind it is nothing
    have hemits : s.emits codec .pollEvent = [] :=
      List.drop_eq_nil_of_le (by simp [call, pollEvent])
    rw [logs, hemits]
    exact .polled
  | takeTransmit =>
    rw [logs_eq codec .takeTransmit rfl (List.append_nil _).symm]
    exact .taken

/-- **The run rule.** What holds of a new vehicle and is kept by every call that meets `C`, of what
is on record and the state, holds of every run of such calls. -/
theorem invariant_of_effect {I : List Act → Evcc → Prop} {C : Evcc → Call → Prop}
    {codec : Codec} {config : EvccConfig} (new : I [] (.new config))
    (next : ∀ log s c acts s', I log s → C s c → Effect codec s c acts s' → I (log ++ acts) s')
    {calls : List Call} (h : Along (fun before c => C (after codec config before) c) calls) :
    I (history codec config calls) (after codec config calls) := by
  refine h.induction (motive := fun calls =>
    I (history codec config calls) (after codec config calls)) new ?_
  intro calls c ih hc
  rw [history_concat, after_concat]
  exact next _ _ c _ _ ih hc (effect_call codec _ c)

end Iso15118.Evcc
