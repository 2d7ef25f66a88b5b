import Iso15118.Drivers.Failure
import Iso15118.Drivers.Refusal
import Iso15118.Message.Refusal
import Iso15118.Secc.Answerable
import Iso15118.Secc.HalfDuplex

/-!
# A station can always refuse

A station that refuses a request still owes the response of its exchange, and at that moment it has
nothing to put in one. `Message.refusal` is what it answers with, and whatever session it is in, the
engine takes it: the request that was surfaced last is of the session's generation, the code the
event came with is a failure there, and the refusal passes every check of `Secc.respond`.

* **`Event.Refusable`** — what an event says of the request it surfaces;
* **`refusable_emitted`** — every event of every run says so;
* **`refusable`** — the refusal of what is owed an answer, and what becomes of it.
-/

namespace Iso15118.Secc

open Iso15118.Lib Iso15118.Session
open Iso15118.Message (Codec Outcome Minimal Refuses Bare outcomeOf)
open Iso15118.Session.Connection (Frames)

/-! ## What is surfaced

An event that asks for an answer carries a request, and perhaps the code it was refused with. -/

/-- The request an event surfaces, and the response code it comes with when it was refused. -/
def Event.asks : Event → Option (Message × Option UInt8)
  | .request m => some (m, none)
  | .refused m code _ | .overdue m code _ => some (m, some code)
  | .protocolAgreed _ | .closed _ => none

/-- What is surfaced is a request of some generation, and its code is a failure there. -/
def Event.Refusable (e : Event) : Prop :=
  ∀ m code, e.asks = some (m, code) →
    m.isRequest = true ∧ ∃ p, m.generation = some p ∧ ∀ c ∈ code, outcomeOf p c = some .failed

theorem refusable_closed (why : Close) : (Event.closed why).Refusable := by
  intro m code h
  cases h

/-! ### The codes

Each way to refuse a request has a code, which the generation knows as a failure. -/

theorem outcomeOf_unknownSessionCode (flow : Flow) :
    outcomeOf flow.protocol (unknownSessionCode (some flow.protocol)) = some .failed := by
  cases flow <;> rfl

theorem outcomeOf_failedCode (flow : Flow) :
    outcomeOf flow.protocol (failedCode (some flow.protocol)) = some .failed := by
  cases flow <;> rfl

/-- The code of a request that is out of sequence. -/
theorem outcomeOf_of_accept {flow flow' : Flow} {m : Message} {e : SequenceError}
    (h : flow.accept m = (.error (.sequence e), flow')) :
    outcomeOf flow.protocol e.responseCode = some .failed := by
  cases flow with
  | iso2 s =>
    cases hof : Iso2.Request.of m with
    | none =>
      simp only [Flow.accept, hof] at h
      cases h
    | some r =>
      cases hnext : s.nextPhase r with
      -- out of order in the older generation
      | none =>
        simp only [Flow.accept, hof, Iso2.Sequencer.accept, hnext] at h
        cases h
        rfl
      | some p =>
        simp only [Flow.accept, hof, Iso2.Sequencer.accept, hnext] at h
        cases h
  | iso20 s =>
    cases hof : Iso20.Request.of m with
    | none =>
      simp only [Flow.accept, hof] at h
      cases h
    | some r =>
      simp only [Flow.accept, hof] at h
      -- the message set comes first in the newer one
      split at h
      · cases h
        rfl
      · cases hnext : s.nextPhase r with
        | none =>
          simp only [Iso20.Sequencer.acceptProcessing, hnext] at h
          cases h
          rfl
        | some p =>
          simp only [Iso20.Sequencer.acceptProcessing, hnext] at h
          cases h

/-! ### From one message to a whole run

What holds of one message dispatched is carried to the loop, to a call and to a run. -/

/-- A message of the generation the connection reads, dispatched. -/
theorem refusable_dispatched {s s' : Secc} {m : Message} {evs : List Event} (hs : Synced s)
    (hgeneration : m.generation = s.conn.protocol) (h : Dispatched s m evs (.ok (), s')) :
    ∀ e ∈ evs, e.Refusable := by
  cases h with
  -- the handshake shows nothing that can be refused
  | rejected req frame timers hm hflow => simpa using refusable_closed _
  | agreed req protocol set flow frame timers hm hflow hnew hsetup =>
    simp only [List.mem_singleton, forall_eq]
    intro m' code h
    cases h
  | unknown due timers hm hreq hest hid =>
    obtain ⟨flow, hflow⟩ := Option.isSome_iff_exists.mp (hs.settled hest)
    rw [hs.protocol flow hflow] at hgeneration ⊢
    simp only [List.mem_cons, List.not_mem_nil, or_false, forall_eq_or_imp, forall_eq]
    refine ⟨?_, refusable_closed _⟩
    intro m' code h
    cases h
    refine ⟨hreq, flow.protocol, hgeneration, ?_⟩
    intro c hc
    cases hc
    exact outcomeOf_unknownSessionCode flow
  -- a request that is taken may still be refused, with any code of its generation
  | accepted flow flow' due phase timers hreq hid hflow haccept hsetup =>
    simp only [List.mem_singleton, forall_eq]
    intro m' code h
    cases h
    refine ⟨hreq, flow.protocol, hgeneration.trans (hs.protocol flow hflow), ?_⟩
    intro c hc
    cases hc
  | refused flow e event due overdue timers hreq hid hflow haccept hevent =>
    rw [hs.protocol flow hflow] at hgeneration hevent
    simp only [List.mem_cons, List.not_mem_nil, or_false, forall_eq_or_imp, forall_eq]
    refine ⟨?_, refusable_closed _⟩
    intro m' code h
    rcases hevent with rfl | ⟨phase, rfl⟩
    · cases h
      refine ⟨hreq, flow.protocol, hgeneration, ?_⟩
      intro c hc
      cases hc
      exact outcomeOf_of_accept haccept
    · cases h
      refine ⟨hreq, flow.protocol, hgeneration, ?_⟩
      intro c hc
      cases hc
      exact outcomeOf_failedCode flow

/-- What the pump adds to the events. -/
theorem refusable_pump (codec : Codec) (s : Secc) (now : Instant) (hs : Synced s) :
    ∃ evs, (s.pump codec now).2.events = s.events ++ evs ∧ ∀ e ∈ evs, e.Refusable := by
  fun_induction pump codec s now with
  | case1 s hrest => exact ⟨[], (List.append_nil _).symm, by simp⟩
  | case2 s hrest e conn hnext => exact ⟨[], (List.append_nil _).symm, by simp⟩
  | case3 s hrest conn hnext => exact ⟨[], (List.append_nil _).symm, by simp⟩
  | case4 s hrest m conn hnext e s' hdispatch =>
    rw [not_or] at hrest
    have hopen : s.closed = false := by simpa using hrest.1
    obtain ⟨evs, h⟩ := dispatched_dispatch codec (s := { s with conn := conn }) now m hopen
    rw [hdispatch] at h
    cases h with
    | fault e timers hfault => exact ⟨[], (List.append_nil _).symm, by simp⟩
  | case5 s hrest m conn hnext s' hdispatch ih =>
    rw [not_or] at hrest
    have hopen : s.closed = false := by simpa using hrest.1
    have hidle : s.outstanding = none := by simpa using hrest.2
    have hread : Reads codec s m conn := ⟨hopen, hidle, hnext⟩
    have hconn := s.conn.sameButInput_nextMessage codec
    rw [hnext] at hconn
    have hs' : Synced { s with conn := conn } := hs.keep rfl hconn.protocol (.inl rfl)
    obtain ⟨evs, h⟩ := dispatched_dispatch codec (s := { s with conn := conn }) now m hopen
    rw [hdispatch] at h
    have hevs := refusable_dispatched hs' (hread.generation.trans hconn.protocol.symm) h
    have hevents := events_of_step (.read (by exact hopen) (by exact hidle) h)
    rw [eventsOf_map_event] at hevents
    obtain ⟨more, hmore, hall⟩ := ih (hs'.dispatched h)
    refine ⟨evs ++ more, ?_, ?_⟩
    · rw [hmore, hevents, List.append_assoc]
    · intro e he
      exact (List.mem_append.mp he).elim (hevs e) (hall e)

/-- A fault adds the end of the session. -/
theorem refusable_closeOnError {s : Secc} {outcome : Except SeccError Unit × Secc}
    {evs : List Event} (hevents : outcome.2.events = s.events ++ evs)
    (hevs : ∀ e ∈ evs, e.Refusable) :
    ∃ evs', (closeOnError outcome).2.events = s.events ++ evs' ∧ ∀ e ∈ evs', e.Refusable := by
  obtain ⟨result, s'⟩ := outcome
  cases result with
  | ok _ => exact ⟨evs, hevents, hevs⟩
  | error e =>
    show ∃ evs', s'.closeFatal.events = s.events ++ evs' ∧ _
    cases hclosed : s'.closed with
    | true =>
      rw [closeFatal, if_pos hclosed]
      exact ⟨evs, hevents, hevs⟩
    | false =>
      rw [closeFatal_of_open hclosed]
      refine ⟨evs ++ [.closed .fatal], ?_, ?_⟩
      · rw [← List.append_assoc, ← hevents]
      · intro e he
        rcases List.mem_append.mp he with he | he
        · exact hevs e he
        · rw [List.mem_singleton.mp he]
          exact refusable_closed _

/-- What a call adds to the events, when it only adds to them. -/
theorem refusable_emits_of {codec : Codec} {s : Secc} {c : Call}
    (h : ∃ evs, (s.call codec c).events = s.events ++ evs ∧ ∀ e ∈ evs, e.Refusable) :
    ∀ e ∈ s.emits codec c, e.Refusable := by
  obtain ⟨evs, hevents, hevs⟩ := h
  rw [emits_eq hevents]
  exact hevs

/-- Whatever a call adds to the events can be refused. Events come out of the pump, and out of what
ends a session; the other calls add none. -/
theorem refusable_emits (codec : Codec) {s : Secc} (hs : Synced s) (c : Call) :
    ∀ e ∈ s.emits codec c, e.Refusable := by
  have hnone : ∃ evs : List Event, s.events = s.events ++ evs ∧ ∀ e ∈ evs, e.Refusable :=
    ⟨[], (List.append_nil _).symm, by simp⟩
  cases c with
  | opened now => exact refusable_emits_of hnone
  | handleInput now data =>
    refine refusable_emits_of ?_
    show ∃ evs, (s.handleInput codec now data).2.events = s.events ++ evs ∧ _
    unfold handleInput
    split
    -- input: what is framed is pumped, and a fault is the end
    · exact hnone
    · have hconn := s.conn.sameButInput_receive data
      split
      · exact refusable_closeOnError (s := s) (List.append_nil _).symm (by simp)
      · next conn hreceive =>
        rw [hreceive] at hconn
        have hs' : Synced { s with conn := conn } := hs.keep rfl hconn.protocol (.inl rfl)
        obtain ⟨evs, hevents, hevs⟩ := refusable_pump codec { s with conn := conn } now hs'
        exact refusable_closeOnError (s := s) hevents hevs
  | respond now response =>
    refine refusable_emits_of ?_
    show ∃ evs, (s.respond codec now response).2.events = s.events ++ evs ∧ _
    -- an answer that is queued is followed by the pump; one that is not adds nothing
    rcases s.answer_cases codec response with
      ⟨e, flow, h, hflow⟩ | ⟨o, flow, frame, h, howed, hflow, -⟩
    · rw [respond, h]
      exact hnone
    · rw [respond, h]
      dsimp only
      generalize hs' : Secc.mk .. = s'
      have hsynced : Synced s' := by
        rw [← hs']
        exact hs.keep rfl rfl hflow
      have hsame : s'.events = s.events := by
        rw [← hs']
      have hsettled := settled_settle s' now
      generalize s'.settle now = t at hsettled ⊢
      -- the wait for the next request, in which buffered frames are read
      cases hsettled with
      | waiting timers hsetup =>
        obtain ⟨evs, hevents, hevs⟩ := refusable_pump codec { s' with timers := timers } now
          (hsynced.keep rfl rfl (.inl rfl))
        exact refusable_closeOnError (hevents.trans (by rw [hsame])) hevs
      | finished why hopen hwhy =>
        -- the session is over, and nothing more is read
        rw [pump_of_atRest codec now (.inl rfl)]
        have hevents : s'.events ++ [.closed why] = s.events ++ [.closed why] := by rw [hsame]
        have hevs : ∀ e ∈ [Event.closed why], e.Refusable := by simpa using refusable_closed why
        exact refusable_closeOnError (s := s) hevents hevs
  | joinSession sessionId => exact refusable_emits_of hnone
  | resume sessionId transfer =>
    refine refusable_emits_of ?_
    obtain ⟨flow, config, h⟩ := resume_eq s sessionId transfer
    show ∃ evs, (s.resume sessionId transfer).2.events = s.events ++ evs ∧ _
    rw [h]
    exact hnone
  | handleTimeout now =>
    refine refusable_emits_of ?_
    show ∃ evs, (s.handleTimeout now).events = s.events ++ evs ∧ _
    obtain ⟨evs, h⟩ := expired_handleTimeout s now
    generalize s.handleTimeout now = out at h
    cases h with
    | kept timers overdue hflow hdue htimers => exact hnone
    | timedOut timer timers overdue hopen hflow hdue =>
      exact ⟨[.closed (.timeout timer)], rfl, by simpa using refusable_closed _⟩
  | pollEvent =>
    intro e he
    have hlen : s.pollEvent.2.events.length ≤ s.events.length := by simp [pollEvent]
    rw [emits, call, List.drop_eq_nil_of_le hlen] at he
    cases he
  | takeTransmit => exact refusable_emits_of hnone

/-- **Every event of every run**: what is surfaced can be refused. -/
theorem refusable_emitted (codec : Codec) (config : SeccConfig) (calls : List Call) :
    ∀ e ∈ emitted codec config calls, e.Refusable := by
  induction calls using List.reverseRecOn with
  | nil => simp
  | append_singleton calls c ih =>
    intro e he
    rw [emitted_concat] at he
    exact (List.mem_append.mp he).elim (ih e)
      (refusable_emits codec (synced_after codec config calls) c e)

/-! ## What is owed an answer

The request that is owed an answer is the last one surfaced; with its refusal at hand, `respond`
is followed check by check. -/

/-- `r` refuses the request `m` in `s`: it is due, and once it is queued a failure is the end of
the session's progress. -/
structure Refused (codec : Codec) (s : Secc) (m r : Message) (code : UInt8) : Prop where
  refuses : Refuses m r code
  due : s.config.sessionId.isNone = false → s.Due r
  queued : ∀ now frame payload, s.config.sessionId.isNone = false →
    Frames codec s.conn.maxPayloadLen (r.setSessionId s.config.sessionId).2 frame payload →
    s.queues codec (.respond now r) = [r]
  stops : ∀ now rest, s.queues codec (.respond now r) = [r] → r.outcome = some .failed →
    OnlyStops (outputs (call codec) (hands codec) s (.respond now r :: rest))
      (∀ c ∈ rest, ∀ sessionId transfer, c ≠ .resume sessionId transfer)

/-- What an event owes an answer, it surfaces. -/
theorem asks_of_owes {e : Event} {o : Outstanding} (h : e.Owes o) :
    ∃ m code, e.asks = some (m, code) ∧ o.name = m.name := by
  cases e with
  | request m => exact ⟨m, none, rfl, h.1⟩
  | refused m code reason => exact ⟨m, some code, rfl, h.1⟩
  | overdue m code phase => exact ⟨m, some code, rfl, h.1⟩
  | protocolAgreed p => cases h
  | closed why => cases h

theorem refused_of_refuses {codec : Codec} {config : SeccConfig} {calls : List Call}
    {o : Outstanding} {m r : Message} {code : UInt8}
    (howed : (after codec config calls).outstanding = some o) (hname : o.name = m.name)
    (h : Refuses m r code) : Refused codec (after codec config calls) m r code := by
  have hanswers : r.answers o.name = true := by
    rw [hname]
    exact h.answers
  have hdue : (after codec config calls).config.sessionId.isNone = false →
      (after codec config calls).Due r := by
    intro hid
    exact ⟨h.notRequest, ⟨o, howed, .inr hanswers⟩, fun _ => hid⟩
  refine ⟨h, hdue, ?_, ?_⟩
  · intro now frame payload hid hframes
    have hanswer := answer_of_due codec (hdue hid)
    rw [Connection.send_of_frames hframes] at hanswer
    simp only [queues, hanswer]
  · intro now rest hqueued hfailed
    exact onlyStops_respond codec config calls rest now r hqueued hfailed

/-- **A station can always refuse.** In every run, what is owed an answer was surfaced last, and it
has a refusal for every code of its generation, the one it came with among them, unless it is a
bare body element; and every refusal is taken. -/
theorem refusable (minimal : Minimal) (codec : Codec) (config : SeccConfig) (calls : List Call)
    (o : Outstanding) (howed : (after codec config calls).outstanding = some o) :
    ∃ e m code p, (surfaced (emitted codec config calls)).getLast? = some e
      ∧ e.asks = some (m, code) ∧ o.name = m.name ∧ m.generation = some p
      ∧ (∀ c ∈ code, outcomeOf p c = some .failed)
      ∧ (∀ c, (m.refusal minimal c).isSome = true
          ↔ (outcomeOf p c).isSome = true ∧ ¬ Bare m)
      ∧ ∀ c r, m.refusal minimal c = some r →
          Refused codec (after codec config calls) m r c := by
  obtain ⟨e, hlast, howes⟩ := (duplex_after codec config calls).owed o howed
  obtain ⟨m, code, hasks, hname⟩ := asks_of_owes howes
  have hmem : e ∈ emitted codec config calls :=
    List.mem_of_mem_filter (List.mem_of_getLast? hlast)
  obtain ⟨hreq, p, hgeneration, hcode⟩ := refusable_emitted codec config calls e hmem m code hasks
  refine ⟨e, m, code, p, hlast, hasks, hname, hgeneration, hcode, ?_, ?_⟩
  · intro c
    exact Message.isSome_refusal_iff c hreq hgeneration
  · intro c r h
    exact refused_of_refuses howed hname (Message.refuses_of_refusal h)

/-- A minimum with the time of the recorded messages. -/
def goldenMinimal : Minimal where
  header2 := []
  iso2 _ := []
  header20 := Message.Golden.timeStamp
  iso20 _ := []
  iso20Ac _ := []
  iso20Dc _ := []
  iso20Wpt _ := []
  iso20Acdp _ := []
  iso20AcDerIec _ := []
  iso20AcDerSae _ := []

/-- A `SessionStopReq` right after the handshake of a -20 session. -/
def goldenRefused : List Call :=
  goldenIso20 ++ [.handleInput (.fromMillis 200)
    (Message.Golden.frame .part20Main Message.Golden.sessionStopReq)]

/-- It comes with `FAILED_SequenceError`, and is refused with it. -/
theorem refusable_sessionStop :
    Refused Message.Golden.codec (after Message.Golden.codec goldenConfig goldenRefused)
      (.iso20 (.request (.sessionStop .terminate) Message.Golden.header []))
      (.iso20 (.response .sessionStop ⟨List.replicate 8 0, Message.Golden.timeStamp⟩
        .failedSequenceError [])) 34 := by
  obtain ⟨e, m, code, p, hlast, hasks, -, -, -, -, hrefused⟩ :=
    refusable goldenMinimal Message.Golden.codec goldenConfig goldenRefused
      ⟨"SessionStopReq", true, .fromMillis 1700⟩ (by decide +kernel)
  have hevent : (surfaced (emitted Message.Golden.codec goldenConfig goldenRefused)).getLast?
      = some (.refused (.iso20 (.request (.sessionStop .terminate) Message.Golden.header [])) 34
          (.sequence ⟨"SessionStopReq", "Start", 34⟩)) := by
    decide +kernel
  rw [hevent] at hlast
  cases hlast
  cases hasks
  exact hrefused 34 _ rfl

end Iso15118.Secc
