import Iso15118.Drivers.Lockstep
import Iso15118.Session.Failure

/-!
# What a call that fails leaves behind

The application is told of its own mistakes and may try again, so a call that fails has to leave
the session as it found it. A request does (**`request_refused`**): the vehicle asks the ordering
rules on a dry run, and takes the step when the bytes are queued; the dry run and the step are
written separately for each generation, and say the same of every message.

A response does not always. `Secc.respond` tells the flow of a failure before it encodes the
answer, so that a `FAILED_*` response that cannot be sent fails the session without a word on the
wire: the vehicle's next request is refused for a failure it was never told of.
**`respond_refused_iff`** says that this is the only way.
-/

namespace Iso15118

open Iso15118.Session
open Iso15118.Message (Codec Outcome)
open Iso15118.Session.Connection (Frames)

/-! ## The vehicle

A request is tried on the flow, stamped, encoded and sent, and only then is the step taken. Every
error comes before that. -/

namespace Evcc

/-- **A refused request changes nothing.** And the dry run the refusal rests on is the run, for
every flow and every message. -/
theorem request_refused (codec : Codec) :
    (∀ (s : Evcc) (now : Instant) (m : Message) (e : EvccError),
        (s.request codec now m).1 = .error e → (s.request codec now m).2 = s)
      ∧ (∀ (flow : Flow) (m : Message), flow.permits m = (flow.accept m).1)
      ∧ ∀ (flow : Flow) (m : Message) (e : FlowError),
        (flow.accept m).1 = .error e → (flow.accept m).2 = flow := by
  refine ⟨?_, Flow.permits_eq_accept, fun flow m e h => Flow.accept_of_error h⟩
  intro s now m e h
  rcases s.request_cases codec now m with ⟨e', hrefused⟩ |
    ⟨_, _, _, _, _, -, -, -, -, -, -, -, hasked⟩
  · rw [hrefused]
  · rw [hasked] at h
    cases h

/-- A vehicle that has agreed on -2 and not set up the session asks to stop it, and is as it was. -/
theorem request_refused_sessionStop :
    ((after Message.Golden.exchange goldenVehicle
            [.start (.fromMillis 0), .handleInput (.fromMillis 1)
              (Message.Golden.frame .exiEncodedV2gMessage [0x80, 0x40, 0x00, 0x40])]).request
          Message.Golden.exchange (.fromMillis 2) Message.Golden.sessionStopRequest).2
        = after Message.Golden.exchange goldenVehicle
            [.start (.fromMillis 0), .handleInput (.fromMillis 1)
              (Message.Golden.frame .exiEncodedV2gMessage [0x80, 0x40, 0x00, 0x40])] :=
  (request_refused Message.Golden.exchange).1 _ _ _
    (.flow (.sequence ⟨"SessionStopReq", "Start", 5⟩)) (by decide +kernel)

end Evcc

/-! ## The station

A response passes its checks, then the flow is told, then it is encoded and sent. An error at the
end comes after the flow has been told. -/

namespace Secc

/-- What an application that tries again relies on. -/
structure Intact (s s' : Secc) : Prop where
  flow : s'.flow = s.flow
  outstanding : s'.outstanding = s.outstanding
  timers : s'.timers = s.timers
  events : s'.events = s.events
  tx : s'.conn.tx = s.conn.tx

/-- The response passes every check: it is one, it is owed, and there is an id to put in it. -/
structure Due (s : Secc) (response : Message) : Prop where
  notRequest : response.isRequest = false
  owed : ∃ o, s.outstanding = some o ∧ (o.refused = true ∨ response.answers o.name = true)
  identified : (response.setSessionId s.config.sessionId).1 = true →
    s.config.sessionId.isNone = false

/-- A failure nobody hears of: the response is due and reports one, it does not encode or is too
long, and the flow has not failed before. -/
structure FailsUnheard (codec : Codec) (s : Secc) (response : Message) : Prop where
  due : s.Due response
  failure : response.outcome.any Outcome.isFailure = true
  unsent : ¬ ∃ frame payload, Frames codec s.conn.maxPayloadLen
    (response.setSessionId s.config.sessionId).2 frame payload
  fresh : ∃ flow, s.flow = some flow ∧ flow.failed = false

variable {s : Secc} {response : Message}

/-- A response that is not due is turned away at once. -/
theorem answer_of_not_due (codec : Codec) (h : ¬ s.Due response) :
    ∃ e, s.answer codec response = (.error e, s) := by
  unfold answer
  split
  · exact ⟨_, rfl⟩
  · next hreq =>
    split
    · exact ⟨_, rfl⟩
    · next o howed =>
      split
      · exact ⟨_, rfl⟩
      · next hpairs =>
        dsimp only
        split
        · exact ⟨_, rfl⟩
        · next hid =>
          refine absurd ⟨by simpa using hreq, ⟨o, howed, ?_⟩, ?_⟩ h
          · by_contra hneither
            exact hpairs ⟨fun hrefused => hneither (.inl hrefused),
              fun hanswers => hneither (.inr hanswers)⟩
          · intro hstamped
            by_contra hnone
            exact hid ⟨hstamped, by simpa using hnone⟩

/-- One that is due is sent, the flow told of a failure first. -/
theorem answer_of_due (codec : Codec) (h : s.Due response) :
    s.answer codec response
      = match s.conn.send codec (response.setSessionId s.config.sessionId).2 with
        | (.error e, conn) =>
            (.error (.connection e),
              { s with flow := Evcc.told s.flow response, conn := conn })
        | (.ok (), conn) =>
            (.ok (),
              { s with flow := Evcc.told s.flow response, conn := conn, outstanding := none }) := by
  -- none of the checks before the send turns it away
  obtain ⟨o, howed, hpairs⟩ := h.owed
  have hid : ¬ ((response.setSessionId s.config.sessionId).1 = true
      ∧ s.config.sessionId.isNone = true) := by
    rintro ⟨hstamped, hnone⟩
    rw [h.identified hstamped] at hnone
    cases hnone
  have hanswers : ¬ (¬ o.refused = true ∧ ¬ response.answers o.name = true) := by
    rintro ⟨hrefused, hno⟩
    exact hpairs.elim hrefused hno
  have htold : (if response.outcome.any Outcome.isFailure = true then
      { s with flow := s.flow.map Flow.recordFailure } else s)
        = { s with flow := Evcc.told s.flow response } := by
    unfold Evcc.told
    split <;> rfl
  unfold answer
  rw [if_neg (by simp [h.notRequest])]
  split
  · next hidle =>
    rw [howed] at hidle
    cases hidle
  · next o' howed' =>
    obtain rfl := Option.some.inj (howed.symm.trans howed')
    dsimp only
    rw [if_neg hanswers, (response.sameButHeader_setSessionId s.config.sessionId).outcome, htold]
    exact if_neg hid

/-- A flow that has failed already, or hears of no failure, stays as it is. -/
theorem told_eq_self {flow : Option Flow}
    (h : response.outcome.any Outcome.isFailure = true → ∀ f, flow = some f → f.failed = true) :
    Evcc.told flow response = flow := by
  unfold Evcc.told
  split
  · next hfailure =>
    cases flow with
    | none => rfl
    | some f => rw [Option.map_some, Flow.recordFailure_eq_self.mpr (h hfailure f rfl)]
  · rfl

/-- **A refused response leaves the session as it was**, unless it reports a failure that cannot
be put on the wire: that one the flow has been told of. -/
theorem respond_refused_iff (codec : Codec) (s : Secc) (now : Instant) (response : Message) :
    ((∃ e, (s.respond codec now response).1 = .error e)
        → s.queues codec (.respond now response) = []
        → Intact s (s.respond codec now response).2)
      ↔ ¬ FailsUnheard codec s response := by
  by_cases hdue : s.Due response
  · have hanswer := answer_of_due codec hdue
    rcases s.conn.send_cases codec (response.setSessionId s.config.sessionId).2 with
      ⟨e, hsend⟩ | ⟨frame, -, hsend⟩
    · -- unsent: all that can have moved is the flow
      rw [hsend] at hanswer
      have hrespond : s.respond codec now response
          = (.error (.connection e), { s with flow := Evcc.told s.flow response }) := by
        rw [respond, hanswer]
      have hqueues : s.queues codec (.respond now response) = [] := by
        simp only [queues, hanswer]
      rw [hrespond, hqueues]
      constructor
      -- an unsent failure that was new to the flow is what stays behind
      · intro h hunheard
        obtain ⟨flow, hflow, hfresh⟩ := hunheard.fresh
        have hkept : Evcc.told s.flow response = s.flow := (h ⟨_, rfl⟩ rfl).flow
        rw [Evcc.told, if_pos hunheard.failure, hflow, Option.map_some] at hkept
        rw [Flow.recordFailure_eq_self.mp (Option.some.inj hkept)] at hfresh
        cases hfresh
      · intro h _ _
        refine ⟨told_eq_self ?_, rfl, rfl, rfl, rfl⟩
        intro hfailure flow hflow
        by_contra hfresh
        refine h ⟨hdue, hfailure, ?_, flow, hflow, by simpa using hfresh⟩
        rintro ⟨frame, payload, hframes⟩
        rw [Connection.send_of_frames hframes] at hsend
        cases hsend
    · -- sent, and that is another matter
      rw [hsend] at hanswer
      obtain ⟨frame', payload, hframes, -⟩ := Connection.frames_of_send hsend
      have hqueues : s.queues codec (.respond now response) = [response] := by
        simp only [queues, hanswer]
      rw [hqueues]
      exact iff_of_true (fun _ h => by cases h) fun h => h.unsent ⟨frame', payload, hframes⟩
  -- a response that is not due is turned away before anything moves
  · obtain ⟨e, hanswer⟩ := answer_of_not_due codec hdue
    have hrespond : s.respond codec now response = (.error e, s) := by rw [respond, hanswer]
    rw [hrespond]
    exact iff_of_true (fun _ _ => ⟨rfl, rfl, rfl, rfl, rfl⟩) fun h => hdue h.due

/-- A `SessionSetupRes` with `FAILED` and an EVSE id of four characters where the schema has
seven. -/
def shortEvseId : Message :=
  .iso2 (.v2gMessage ⟨Message.Golden.sessionId.toList, []⟩
    (some (.response .sessionSetup .failed [0x5a, 0x5a, 0x30, 0x30])))

/-- The coding of the recorded exchange, which tells an EVSE id that is too short. -/
def strict : Codec :=
  { Message.Golden.exchange with
    toVec := fun m =>
      if m = shortEvseId then .error .valueTooShort else Message.Golden.exchange.toVec m }

/-- The answer is refused, nothing is on the wire, and the session has failed. -/
theorem not_respond_refused :
    ¬ ∀ (codec : Codec) (s : Secc) (now : Instant) (response : Message),
      (∃ e, (s.respond codec now response).1 = .error e)
        → s.queues codec (.respond now response) = []
        → Intact s (s.respond codec now response).2 := by
  intro h
  have hintact := h strict (after strict goldenConfig goldenSetup) (.fromMillis 300) shortEvseId
    ⟨.connection (.message (.exi .valueTooShort)), by decide +kernel⟩ (by decide +kernel)
  exact absurd hintact.flow (by decide +kernel)

end Secc

end Iso15118
