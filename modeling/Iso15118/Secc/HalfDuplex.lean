import Iso15118.Secc.Effect

/-!
# One exchange at a time

The vehicle asks, the station answers. Whatever arrives and in whatever pieces, an open station
has surfaced as many requests as it has answered, or one more; that one is the outstanding
request, the next response queued is the one its name asks for, and until then no frame behind it
is looked at: **`half_duplex`**.

Two arguments are needed. That requests and answers alternate is an invariant of the record
(`Duplex`). That nothing behind the outstanding request has been looked at is no property of one
run, and is shown by comparing two: a run with other frames waiting, or with another codec to read
them by, is the same run up to there.
-/

namespace Iso15118.Secc

open Iso15118.Lib Iso15118.Session
open Iso15118.Message (Codec)
open Iso15118.V2gtp (PayloadType)

/-- The event surfaces a request. -/
def Event.surfaces : Event → Bool
  | .request _ | .refused _ _ _ | .overdue _ _ _ => true
  | .protocolAgreed _ | .closed _ => false

/-- The requests surfaced, in order. -/
def surfaced (evs : List Event) : List Event := evs.filter Event.surfaces

@[simp] theorem surfaced_append (xs ys : List Event) :
    surfaced (xs ++ ys) = surfaced xs ++ surfaced ys := List.filter_append ..

/-- The request that was surfaced last, unless it was refused. -/
def Surfaced (codec : Codec) (config : SeccConfig) (before : List Call) (r : Message) : Prop :=
  (surfaced (emitted codec config before)).getLast? = some (.request r)

/-! ## What is owed

The counts and the outstanding request determine one another while the session is open: one more
has been surfaced than answered if there is one, and as many otherwise. -/

/-- `o` is what the station owes after surfacing `e`: an answer by name, if it was not refused. -/
def Event.Owes (e : Event) (o : Outstanding) : Prop :=
  match e with
  | .request m => o.name = m.name ∧ o.refused = false
  | .refused m _ _ | .overdue m _ _ => o.name = m.name ∧ o.refused = true
  | .protocolAgreed _ | .closed _ => False

/-- The requests surfaced and the responses queued, against the state. -/
structure Duplex (evs : List Event) (answers : List Message) (s : Secc) : Prop where
  balance : s.closed = false →
    (surfaced evs).length = answers.length + if s.outstanding.isSome then 1 else 0
  owed : ∀ o, s.outstanding = some o → ∃ e, (surfaced evs).getLast? = some e ∧ e.Owes o

variable {evs : List Event} {answers : List Message} {s s' : Secc}

/-- Nothing surfaced, nothing answered, and the same request outstanding. -/
theorem Duplex.keep (hs : Duplex evs answers s) (hopen : s'.closed = false → s.closed = false)
    (howed : s'.outstanding = s.outstanding) : Duplex (evs ++ []) (answers ++ []) s' := by
  rw [List.append_nil, List.append_nil]
  refine ⟨fun h => ?_, fun o h => hs.owed o (howed.symm.trans h)⟩
  rw [howed]
  exact hs.balance (hopen h)

/-- A request that has been surfaced is the one that is owed an answer. -/
theorem Duplex.surface (hs : Duplex evs answers s) {more : List Event} {e : Event}
    {o : Outstanding} (hopen : s.closed = false) (hidle : s.outstanding = none)
    (hmore : surfaced more = [e]) (hout : s'.outstanding = some o) (howes : e.Owes o) :
    Duplex (evs ++ more) answers s' := by
  refine ⟨fun _ => ?_, fun o' ho' => ?_⟩
  · have hbalance := hs.balance hopen
    rw [hidle] at hbalance
    rw [surfaced_append, hmore, List.length_append, hbalance, hout]
    rfl
  · rw [hout] at ho'
    cases ho'
    refine ⟨e, ?_, howes⟩
    rw [surfaced_append, hmore, List.getLast?_concat]

/-- A message surfaces one request at most, and that one is outstanding. -/
theorem Duplex.dispatched (hs : Duplex evs answers s) {m : Message} {more : List Event}
    (hopen : s.closed = false) (hidle : s.outstanding = none)
    (h : Dispatched s m more (.ok (), s')) : Duplex (evs ++ more) answers s' := by
  cases h with
  | rejected req frame timers hm hflow =>
    refine ⟨fun h => (by cases h), fun o ho => ?_⟩
    rw [show s.outstanding = some o from ho] at hidle
    cases hidle
  | agreed req protocol set flow frame timers hm hflow hnew hsetup =>
    refine ⟨fun _ => ?_, fun o ho => ?_⟩
    · rw [surfaced_append]
      simpa [surfaced, Event.surfaces] using hs.balance hopen
    · rw [show s.outstanding = some o from ho] at hidle
      cases hidle
  | unknown due timers hm hreq hest hid =>
    exact hs.surface hopen hidle (e := .refused m _ .unknownSession) rfl rfl ⟨rfl, rfl⟩
  | accepted flow flow' due phase timers hreq hid hflow haccept hsetup =>
    exact hs.surface hopen hidle (e := .request m) rfl rfl ⟨rfl, rfl⟩
  | refused flow error event due overdue timers hreq hid hflow haccept hevent =>
    rcases hevent with rfl | ⟨phase, rfl⟩
    · exact hs.surface hopen hidle (e := .refused m _ _) rfl rfl ⟨rfl, rfl⟩
    · exact hs.surface hopen hidle (e := .overdue m _ phase) rfl rfl ⟨rfl, rfl⟩

/-- A response queued settles what was owed. -/
theorem Duplex.answer (hs : Duplex evs answers s) {o : Outstanding} (response : Message)
    (howed : s.outstanding = some o) (hopen : s'.closed = false → s.closed = false)
    (hout : s'.outstanding = none) : Duplex (evs ++ []) (answers ++ [response]) s' := by
  rw [List.append_nil]
  refine ⟨fun h => ?_, fun o ho => (by simp [hout] at ho)⟩
  have hbalance := hs.balance (hopen h)
  rw [howed] at hbalance
  rw [hout, hbalance, List.length_append]
  rfl

theorem Duplex.step (hs : Duplex evs answers s) {acts : List Act} (h : Step s acts s') :
    Duplex (evs ++ eventsOf acts) (answers ++ answersOf acts) s' := by
  cases h with
  | received conn hopen hconn => exact hs.keep (fun _ => hopen) rfl
  | read hopen hidle h =>
    rw [eventsOf_map_event, answersOf_map_event, List.append_nil]
    exact hs.dispatched hopen hidle h
  | faulted conn hopen hconn => exact ⟨fun h => (by cases h), fun o ho => (by cases ho)⟩
  | spoiled hflow => exact hs.keep id rfl
  | answered response o frame timers howed hflow hsetup =>
    exact hs.answer response howed id rfl
  | ended response o frame why hopen howed hflow hwhy =>
    exact ⟨fun h => (by cases h), fun o ho => (by cases ho)⟩

theorem Duplex.effect (hs : Duplex evs answers s) {c : Call} {acts : List Act}
    (h : Effect s c acts s') : Duplex (evs ++ eventsOf acts) (answers ++ answersOf acts) s' := by
  cases h with
  | opened now => exact hs.keep id rfl
  | polled => exact hs.keep id rfl
  | taken => exact hs.keep id rfl
  | ticked now h =>
    cases h with
    | kept timers overdue hflow hdue htimers => exact hs.keep id rfl
    | timedOut timer timers overdue hopen hflow hdue =>
      -- the session is over, and what was owed is still owed
      rw [eventsOf_map_event, answersOf_map_event, List.append_nil]
      refine ⟨fun h => (by cases h), fun o ho => ?_⟩
      obtain ⟨e, he, howes⟩ := hs.owed o ho
      exact ⟨e, by simpa [surfaced, Event.surfaces] using he, howes⟩
  | joined sessionId => exact hs.keep id rfl
  | resumed flow flow' hflow hprotocol => exact hs.keep id rfl
  | notResumed => exact hs.keep id rfl
  | driven hdrives h =>
    exact invariant_of_steps (fun _ _ _ _ _ ht hstep => ht.step hstep) hs h

theorem duplex_after (codec : Codec) (config : SeccConfig) (calls : List Call) :
    Duplex (emitted codec config calls) (queued codec config calls)
      (after codec config calls) := by
  refine invariant_of_effect (I := Duplex) codec config ⟨fun _ => rfl, fun o ho => ?_⟩ ?_ calls
  · cases ho
  · intro evs answers s c acts s' hs h
    exact hs.effect h

/-! ## What waits behind it, from call to call

The frames that wait are not looked at, whatever they are. This is put as a comparison of codecs:
a call that may read nothing is the same under any of them. -/

/-- What queuing a response does depends on how messages are written, not on how they are read. -/
theorem answer_congr {codec codec' : Codec} (h : codec'.toVec = codec.toVec) (s : Secc)
    (response : Message) : s.answer codec' response = s.answer codec response := by
  have hsend : ∀ (c : Connection) (m : Message), c.send codec' m = c.send codec m := by
    intro c m
    simp only [Connection.send, Message.encode, h]
  simp only [answer, hsend]

/-- What a call that queues no response does to a session at rest: it is the same whatever the
codecs would read, the session stays at rest, no frame is taken, and input leaves the flow
alone. -/
structure Unread (codec : Codec) (s : Secc) (c : Call) : Prop where
  undecoded : ∀ codec' : Codec, codec'.toVec = codec.toVec → s.call codec' c = s.call codec c
  atRest : (s.call codec c).AtRest
  waiting : (s.call codec c).closed = true ∨ s.conn.frames <+: (s.call codec c).conn.frames
  flow : ∀ now data, c = .handleInput now data → (s.call codec c).flow = s.flow

/-- Input in a session at rest is buffered, or ends it. -/
theorem handleInput_of_atRest {s : Secc} (hs : s.AtRest) (now : Instant) (data : List UInt8) :
    ∃ s', (∀ codec, (s.handleInput codec now data).2 = s') ∧ s'.AtRest
      ∧ (s'.closed = true ∨ s.conn.frames <+: s'.conn.frames) ∧ s'.flow = s.flow := by
  cases hclosed : s.closed with
  | true =>
    refine ⟨s, fun codec => ?_, hs, .inl hclosed, rfl⟩
    rw [handleInput, if_pos hclosed]
  | false =>
    have hopen : ¬ s.closed = true := by simp [hclosed]
    cases hreceive : s.conn.receive data with
    | mk result conn =>
      cases result with
      | error e =>
        -- what cannot be framed ends the session
        have hinput : ∀ codec, s.handleInput codec now data
            = closeOnError (.error (.connection e), { s with conn := conn }) := by
          intro codec
          rw [handleInput, if_neg hopen, hreceive]
        refine ⟨{ s with conn := conn }.closeFatal, fun codec => by rw [hinput]; rfl, ?_⟩
        rw [closeFatal_of_open (by exact hclosed)]
        exact ⟨.inl rfl, .inl rfl, rfl⟩
      | ok _ =>
        -- what can is framed, and the pump does not look at it
        have hrest : { s with conn := conn }.AtRest := hs
        have hinput : ∀ codec, s.handleInput codec now data
            = closeOnError (pump codec { s with conn := conn } now) := by
          intro codec
          rw [handleInput, if_neg hopen, hreceive]
        refine ⟨{ s with conn := conn }, fun codec => ?_, hrest, .inr ?_, rfl⟩
        · rw [hinput, pump_of_atRest codec now hrest]
          rfl
        · have hok : (s.conn.receive data).1 = .ok () := by rw [hreceive]
          obtain ⟨more, hmore⟩ := Connection.frames_receive hok
          rw [hreceive] at hmore
          exact ⟨more, hmore.symm⟩

/-- A call that reads no input, whatever the codecs. -/
theorem Unread.of_eq {codec : Codec} {s s' : Secc} {c : Call}
    (hcall : ∀ codec' : Codec, codec'.toVec = codec.toVec → s.call codec' c = s')
    (hrest : s'.AtRest) (hframes : s'.conn.frames = s.conn.frames)
    (hc : ∀ now data, c ≠ .handleInput now data) : Unread codec s c := by
  refine ⟨fun codec' h => (hcall codec' h).trans (hcall codec rfl).symm, ?_, .inr ?_, ?_⟩
  · rw [hcall codec rfl]
    exact hrest
  · rw [hcall codec rfl]
    exact ⟨[], (List.append_nil _).trans hframes.symm⟩
  · exact fun now data h => absurd h (hc now data)

theorem resume_eq (s : Secc) (sessionId : SessionId) (transfer : Iso20.EnergyTransfer) :
    ∃ flow config, (s.resume sessionId transfer).2 = { s with flow := flow, config := config } := by
  have heffect := effect_resume s sessionId transfer
  generalize (s.resume sessionId transfer).2 = out at heffect
  cases heffect with
  | resumed flow flow' hflow hprotocol => exact ⟨_, _, rfl⟩
  | notResumed => exact ⟨s.flow, s.config, rfl⟩
  | driven hdrives h => cases hdrives

/-- **Nothing is read behind a request that is to be answered**, nor once the session is over. -/
theorem unread_of_atRest {codec : Codec} {s : Secc} {c : Call} (hs : s.AtRest)
    (hc : s.queues codec c = []) : Unread codec s c := by
  cases c with
  | opened now => exact .of_eq (fun _ _ => rfl) hs rfl (by simp)
  | handleInput now data =>
    obtain ⟨s', hs', hrest, hframes, hflow⟩ := handleInput_of_atRest hs now data
    have hcall : ∀ codec, s.call codec (.handleInput now data) = s' := hs'
    refine ⟨fun codec' _ => (hcall codec').trans (hcall codec).symm, ?_, ?_, fun _ _ _ => ?_⟩
    · rw [hcall]
      exact hrest
    · rw [hcall]
      exact hframes
    · rw [hcall]
      exact hflow
  | respond now response =>
    -- a response fails before it is queued, and then only the flow has moved
    rcases s.answer_cases codec response with ⟨e, flow, h, -⟩ | ⟨o, flow, frame, h, -⟩
    · have hrest : { s with flow := flow }.AtRest := hs
      refine .of_eq (fun codec' htoVec => ?_) hrest rfl (by simp)
      show (s.respond codec' now response).2 = _
      rw [respond, answer_congr htoVec, h]
    · -- the response has been queued
      simp only [queues, h] at hc
      cases hc
  | joinSession sessionId => exact .of_eq (fun _ _ => rfl) hs rfl (by simp)
  | resume sessionId transfer =>
    obtain ⟨flow, config, h⟩ := resume_eq s sessionId transfer
    exact .of_eq (fun _ _ => h) hs rfl (by simp)
  -- a deadline changes neither the bytes nor whether it is at rest
  | handleTimeout now =>
    obtain ⟨evs, h⟩ := expired_handleTimeout s now
    refine .of_eq (fun _ _ => rfl) ?_ ?_ (by simp)
    all_goals generalize s.handleTimeout now = out at h
    · cases h with
      | kept timers overdue hflow hdue htimers => exact hs
      | timedOut timer timers overdue hopen hflow hdue => exact .inl rfl
    · cases h with
      | kept timers overdue hflow hdue htimers => rfl
      | timedOut timer timers overdue hopen hflow hdue => rfl
  | pollEvent => exact .of_eq (fun _ _ => rfl) hs rfl (by simp)
  | takeTransmit => exact .of_eq (fun _ _ => rfl) hs rfl (by simp)

/-- Until the next response is queued, call after call. -/
theorem unread_along {codec : Codec} {config : SeccConfig} {calls : List Call}
    (hs : (after codec config calls).AtRest) (later : List Call)
    (hlater : queued codec config (calls ++ later) = queued codec config calls) :
    Along (fun before c => Unread codec (after codec config (calls ++ before)) c) later := by
  have hnone : outputs (call codec) (queues codec) (after codec config calls) later = [] := by
    rw [queued, outputs_append] at hlater
    exact List.append_right_eq_self.mp hlater
  -- by induction on the calls made since, with the session at rest after each of them
  have hboth : (after codec config (calls ++ later)).AtRest
      ∧ Along (fun before c => Unread codec (after codec config (calls ++ before)) c) later := by
    clear hlater
    induction later using List.reverseRecOn with
    | nil =>
      rw [List.append_nil]
      exact ⟨hs, along_nil⟩
    | append_singleton later c ih =>
      rw [outputs_concat, List.append_eq_nil_iff] at hnone
      obtain ⟨hrest, halong⟩ := ih hnone.1
      have hstate : run (call codec) (after codec config calls) later
          = after codec config (calls ++ later) := (run_append ..).symm
      rw [hstate] at hnone
      have hunread := unread_of_atRest hrest hnone.2
      rw [← List.append_assoc, after_concat]
      exact ⟨hunread.atRest, (along_concat ..).mpr ⟨halong, hunread⟩⟩
  exact hboth.2

/-! ## What waits behind it, within a call

The frames behind the one that surfaces a request make no difference to the call that reads it:
each function of the reading half commutes with framing more input behind. -/

/-- `tail` has been framed behind everything the station has yet to read. -/
def followedBy (s : Secc) (tail : List (PayloadType × List UInt8)) : Secc :=
  { s with conn := s.conn.followedBy tail }

section FollowedBy

variable (codec : Codec) (s : Secc) (now : Instant) (m : Message)
  (tail : List (PayloadType × List UInt8))

theorem close_followedBy (why : Close) :
    (s.followedBy tail).close why = (s.close why).followedBy tail := by
  unfold close
  split
  · next h => rw [if_pos (by exact h)]
  · next h =>
    rw [if_neg (by exact h)]
    rfl

theorem closeAfterRefusal_followedBy :
    (s.followedBy tail).closeAfterRefusal = s.closeAfterRefusal.followedBy tail := by
  unfold closeAfterRefusal
  split
  · next h => rw [if_pos (by exact h)]
  · next h =>
    rw [if_neg (by exact h)]
    rfl

theorem enterPhase_followedBy :
    (s.followedBy tail).enterPhase now = (s.enterPhase now).followedBy tail := by
  unfold enterPhase
  cases hflow : s.flow with
  | none => rw [show (s.followedBy tail).flow = none from hflow]
  | some flow =>
    rw [show (s.followedBy tail).flow = some flow from hflow]
    dsimp only
    by_cases h : s.phase = some flow.phaseName
    · rw [if_pos h, if_pos (by exact h)]
    · rw [if_neg h, if_neg (by exact h)]
      rfl

theorem refuse_followedBy (e : SequenceError) :
    (s.followedBy tail).refuse now m e = (s.refuse now m e).followedBy tail := by
  unfold refuse
  dsimp only
  cases hoverdue : s.overdue with
  | none =>
    rw [show ((s.followedBy tail).await now m true).overdue = none from hoverdue,
      show (s.await now m true).overdue = none from hoverdue]
    exact closeAfterRefusal_followedBy
      ((s.await now m true).emit (.refused m e.responseCode (.sequence e))) tail
  | some phase =>
    rw [show ((s.followedBy tail).await now m true).overdue = some phase from hoverdue,
      show (s.await now m true).overdue = some phase from hoverdue]
    exact closeAfterRefusal_followedBy
      ({ s.await now m true with overdue := none }.emit
        (.overdue m (failedCode s.conn.protocol) phase)) tail

/-- The handshake does not look at what has been received behind it. -/
theorem handshake_followedBy (req : AppProtocol.Req) :
    (s.followedBy tail).handshake codec req
      = ((s.handshake codec req).1, (s.handshake codec req).2.followedBy tail) := by
  unfold handshake
  by_cases hflow : s.flow.isSome = true
  · rw [if_pos hflow, if_pos (by exact hflow)]
  · rw [if_neg hflow, if_neg (by exact hflow)]
    dsimp only [followedBy]
    split
    · rw [Connection.send_followedBy]
      rcases s.conn.send_cases codec (.appProtocolRes .reject) with ⟨e, h⟩ | ⟨frame, -, h⟩
      · rw [h]
      · rw [h]
        dsimp only
        exact congrArg (Prod.mk _) (close_followedBy
          { s with
            timers := s.timers.disarm .communicationSetup
            conn := { s.conn with tx := s.conn.tx ++ frame } } tail .noCommonProtocol)
    · next a flow _ =>
      rw [Connection.send_followedBy]
      rcases s.conn.send_cases codec (.appProtocolRes (.accept a)) with ⟨e, h⟩ | ⟨frame, -, h⟩
      · rw [h]
      · rw [h]
        rfl

/-- What a message does is the same with the tail of the input behind it. -/
theorem dispatch_followedBy :
    (s.followedBy tail).dispatch codec now m
      = ((s.dispatch codec now m).1, (s.dispatch codec now m).2.followedBy tail) := by
  unfold dispatch
  dsimp only
  split
  · exact handshake_followedBy codec
      { s with timers := s.timers.arm .sequence now s.config.sequenceTimeout } tail _
  · split
    · rfl
    · split
      · next h =>
        rw [if_pos (by exact h)]
        have hclose := closeAfterRefusal_followedBy
          ((await { s with timers := s.timers.arm .sequence now s.config.sequenceTimeout } now m
            true).emit (.refused m (unknownSessionCode s.conn.protocol) .unknownSession)) tail
        exact congrArg (Prod.mk _) hclose
      · next h =>
        rw [if_neg (by exact h)]
        -- the tail is not looked at: each branch is taken with and without it
        cases hflow : s.flow with
        | none =>
          rw [show (s.followedBy tail).flow = none from hflow]
          rfl
        | some flow =>
          rw [show (s.followedBy tail).flow = some flow from hflow]
          dsimp only
          rcases flow.accept_cases m with ⟨-, h⟩ | ⟨-, e, h⟩ | ⟨-, flow', h, -⟩
          · rw [h]
            rfl
          · rw [h]
            exact congrArg (Prod.mk _) (refuse_followedBy
              { s with
                timers := s.timers.arm .sequence now s.config.sequenceTimeout
                flow := some flow } now m tail e)
          · rw [h]
            have henter := enterPhase_followedBy
              { s with
                timers := s.timers.arm .sequence now s.config.sequenceTimeout
                flow := some flow'
                established := s.established || m.name = "SessionSetupReq" } now tail
            exact congrArg (fun t : Secc => Prod.mk _ ((t.await now m false).emit (.request m)))
              henter

end FollowedBy

/-- **The pump stops at a request.** What is framed behind it stays framed, and the outcome is the
one it would have been without. -/
theorem pump_followedBy {codec : Codec} {s : Secc} {now : Instant}
    (tail : List (PayloadType × List UInt8)) (h : (s.pump codec now).2.AtRest)
    (hok : (s.pump codec now).1 = .ok ()) :
    (s.followedBy tail).pump codec now = (.ok (), (s.pump codec now).2.followedBy tail) := by
  fun_induction pump codec s now with
  | case1 s hrest => exact pump_of_atRest codec now hrest
  | case2 s hrest e conn hnext => cases hok
  | case3 s hrest conn hnext =>
    -- the frames ran out with nothing surfaced
    exact absurd h hrest
  | case4 s hrest m conn hnext e s' hdispatch => cases hok
  | case5 s hrest m conn hnext s' hdispatch ih =>
    have hread : (s.conn.nextMessage codec).1 = .ok (some m) := by rw [hnext]
    have hnext' : (s.followedBy tail).conn.nextMessage codec
        = (.ok (some m), conn.followedBy tail) := by
      have hfollowed := Connection.nextMessage_followedBy tail hread
      rw [hnext] at hfollowed
      exact hfollowed
    have hdispatch' : dispatch codec { s.followedBy tail with conn := conn.followedBy tail } now m
        = (.ok (), s'.followedBy tail) := by
      have hfollowed := dispatch_followedBy codec { s with conn := conn } now m tail
      rw [hdispatch] at hfollowed
      exact hfollowed
    rw [pump, if_neg (by exact hrest), hnext']
    dsimp only
    rw [hdispatch']
    exact ih h hok

theorem call_followedBy {codec : Codec} {s t : Secc} {c : Call} {now : Instant}
    {tail : List (PayloadType × List UInt8)}
    (h : s.reading codec c = some (t.followedBy tail, now)) (hok : (t.pump codec now).1 = .ok ())
    (howed : (t.pump codec now).2.outstanding.isSome = true) :
    s.call codec c = (t.pump codec now).2.followedBy tail := by
  rw [call_of_reading h, pump_followedBy tail (.inr howed) hok]
  rfl

/-- One exchange at a time. `unread` is about the calls made before a response is queued, `behind`
about the frames that arrive, in the same input or earlier, behind the one a call surfaces. -/
structure HalfDuplex (codec : Codec) (config : SeccConfig) (calls : List Call) : Prop where
  balance : (after codec config calls).closed = false →
    (surfaced (emitted codec config calls)).length
      = (queued codec config calls).length
        + if (after codec config calls).outstanding.isSome then 1 else 0
  unread : (after codec config calls).outstanding.isSome = true → ∀ later,
    queued codec config (calls ++ later) = queued codec config calls →
      Along (fun before c => Unread codec (after codec config (calls ++ before)) c) later
  behind : ∀ (c : Call) (t : Secc) (now : Instant) (tail : List (PayloadType × List UInt8)),
    (after codec config calls).reading codec c = some (t.followedBy tail, now) →
    (t.pump codec now).1 = .ok () → (t.pump codec now).2.outstanding.isSome = true →
      (after codec config calls).call codec c = (t.pump codec now).2.followedBy tail
  pairs : ∀ m now response,
    (surfaced (emitted codec config calls)).getLast? = some (.request m) →
    (after codec config calls).queues codec (.respond now response) = [response] →
      ∃ stem, m.name = stem ++ "Req" ∧ response.name = stem ++ "Res"

/-- **One exchange at a time**, in every run: the requests surfaced and the responses queued keep
step while the session is open, nothing behind an unanswered request is read until a response is
queued, and the response to a request that was not refused is the one its name asks for. -/
theorem half_duplex (codec : Codec) (config : SeccConfig) (calls : List Call) :
    HalfDuplex codec config calls where
  balance := (duplex_after codec config calls).balance
  unread := fun howed later hlater => unread_along (.inr howed) later hlater
  behind := fun _ _ _ _ h hok howed => call_followedBy h hok howed
  pairs := by
    intro m now response hlast hqueued
    rcases (after codec config calls).answer_cases codec response with
      ⟨e, flow, h, -⟩ | ⟨o, flow, frame, -, howed, -, -, hpairs, -⟩
    · simp only [queues, h] at hqueued
      cases hqueued
    · obtain ⟨e, he, howes⟩ := (duplex_after codec config calls).owed o howed
      rw [hlast] at he
      cases he
      obtain ⟨hname, hrefused⟩ := howes
      rw [← hname]
      exact Message.answers_iff.mp (hpairs hrefused)

end Iso15118.Secc
