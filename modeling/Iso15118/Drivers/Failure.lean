import Iso15118.Session.Failure
import Iso15118.Secc.Close
import Iso15118.Secc.Identity
import Iso15118.Evcc.Answers

/-!
# A failure ends the session's progress, on either side

A response with a `FAILED_*` code latches the flow of the side that sent it before it goes out, and
of the side that read it before the application hears of it. From then on the station hands over
nothing but a `SessionStopReq`, the vehicle sends nothing else, and one of them is all there is
unless somebody resumes the session.

Frames that were buffered behind the failing exchange are read in the same call that answers it,
and find the latch set.
-/

namespace Iso15118

open Iso15118.Lib Iso15118.Session
open Iso15118.Message (Codec Outcome)
open Iso15118.Session.Flow (Latched Ended)
open Iso15118.Secc (SameOrFailed)

/-! ## The flow, on either side

Both drivers treat their flow the same way, so what a failure does to it is said once. `Halted`
counts: after a failure nothing gets through but one stop, and behind that nothing at all. -/

theorem Secc.SameOrFailed.latched {flow flow' : Option Flow} (h : SameOrFailed flow flow')
    (hlatched : Latched flow) : Latched flow' := by
  rcases h with rfl | rfl
  · exact hlatched
  · exact Flow.latched_recordFailure hlatched.isSome

theorem Secc.SameOrFailed.ended {flow flow' : Option Flow} (h : SameOrFailed flow flow')
    (hended : Ended flow) : Ended flow' := by
  rcases h with rfl | rfl
  · exact hended
  · exact hended.recordFailure

/-- What is done to the flow of a session that has one: nothing, or it is told of a failure; or it
accepts the one request that gets through. -/
inductive Moves (flow : Option Flow) : List Message → Option Flow → Prop where
  | kept {flow' : Option Flow} (h : SameOrFailed flow flow') : Moves flow [] flow'
  | accepted {m : Message} {f f' : Flow} (hf : flow = some f) (h : f.accept m = (.ok (), f')) :
      Moves flow [m] (some f')

/-- After a failure: nothing has got through, or a stop that ended the flow. -/
def Halted (requests : List Message) (flow : Option Flow) : Prop :=
  (requests = [] ∧ Latched flow)
    ∨ ∃ m, requests = [m] ∧ m.name = "SessionStopReq" ∧ Ended flow

theorem Halted.latched {requests : List Message} {flow : Option Flow} (h : Halted requests flow) :
    Latched flow := by
  rcases h with ⟨-, h⟩ | ⟨m, -, -, h⟩
  · exact h
  · exact h.latched

theorem Halted.stops {requests : List Message} {flow : Option Flow} (h : Halted requests flow) :
    ∀ m ∈ requests, m.name = "SessionStopReq" := by
  rcases h with ⟨rfl, -⟩ | ⟨m, rfl, hname, -⟩
  · exact fun m hm => by cases hm
  · exact List.forall_mem_singleton.mpr hname

theorem Halted.length_le {requests : List Message} {flow : Option Flow}
    (h : Halted requests flow) : requests.length ≤ 1 := by
  rcases h with ⟨rfl, -⟩ | ⟨m, rfl, -, -⟩
  · exact Nat.zero_le 1
  · exact Nat.le_refl 1

theorem Halted.move {requests more : List Message} {flow flow' : Option Flow}
    (h : Halted requests flow) (hmove : Moves flow more flow') :
    Halted (requests ++ more) flow' := by
  cases hmove with
  | kept hsame =>
    rw [List.append_nil]
    rcases h with ⟨hnil, h⟩ | ⟨m, hm, hname, h⟩
    · exact .inl ⟨hnil, hsame.latched h⟩
    · exact .inr ⟨m, hm, hname, hsame.ended h⟩
  | accepted hf haccept =>
    rcases h with ⟨rfl, h⟩ | ⟨m, -, -, h⟩
    · obtain ⟨hname, hended⟩ := h.accept hf haccept
      exact .inr ⟨_, rfl, hname, hended⟩
    · exact absurd haccept (h.not_accept hf)

/-! ## The station

What the station hands over is what its flow has accepted. A run after a failure is followed call
by call, and only a resume can let another stop through. -/

namespace Secc

/-- The request an event hands over. -/
def Event.request? : Event → Option Message
  | .request m => some m
  | _ => none

/-- The requests handed over, in order. -/
def requestsOf (evs : List Event) : List Message := evs.filterMap Event.request?

@[simp] theorem requestsOf_nil : requestsOf [] = [] := rfl

@[simp] theorem requestsOf_append (xs ys : List Event) :
    requestsOf (xs ++ ys) = requestsOf xs ++ requestsOf ys := List.filterMap_append

/-- A step of the station takes the flow through the request it hands over, if it hands one over. -/
theorem moves_step {s s' : Secc} {acts : List Act} (hflow : s.flow.isSome = true)
    (h : Step s acts s') : Moves s.flow (requestsOf (eventsOf acts)) s'.flow := by
  cases h with
  | received conn hopen hconn => exact .kept (.inl rfl)
  | read hopen hidle h =>
    rw [eventsOf_map_event]
    cases h with
    | rejected req frame timers hm hnone => exact .kept (.inl rfl)
    | agreed req protocol set flow frame timers hm hnone hnew hsetup =>
      rw [hnone] at hflow
      cases hflow
    | unknown due timers hm hreq hest hid => exact .kept (.inl rfl)
    | accepted flow flow' due phase timers hreq hid hflow haccept hsetup =>
      exact .accepted hflow haccept
    | refused flow e event due overdue timers hreq hid hflow haccept hevent =>
      have hnone : requestsOf [event, .closed .refused] = [] := by
        rcases hevent with rfl | ⟨phase, rfl⟩ <;> rfl
      rw [hnone]
      exact .kept (.inl rfl)
  | faulted conn hopen hconn => exact .kept (.inl rfl)
  | spoiled hflow => exact .kept hflow
  | answered response o frame timers howed hflow hsetup => exact .kept hflow
  | ended response o frame why hopen howed hflow hwhy => exact .kept hflow

theorem halted_steps {requests : List Message} {s s' : Secc} {acts : List Act}
    (h : Halted requests s.flow) (hsteps : Steps Step s acts s') :
    Halted (requests ++ requestsOf (eventsOf acts)) s'.flow := by
  have hstart : Halted (requests ++ requestsOf (eventsOf [])) s.flow := by
    rw [eventsOf_nil, requestsOf_nil, List.append_nil]
    exact h
  refine hsteps.invariant (g := [])
    (I := fun log t => Halted (requests ++ requestsOf (eventsOf log)) t.flow) ?_ hstart
  intro log t l t' ht hstep
  rw [eventsOf_append, requestsOf_append, ← List.append_assoc]
  exact ht.move (moves_step ht.latched.isSome hstep)

theorem resume_flow (s : Secc) (sessionId : SessionId) (transfer : Iso20.EnergyTransfer) :
    (s.resume sessionId transfer).2.flow = s.flow
      ∨ ∃ f f', s.flow = some f ∧ f.resume transfer = .ok f'
          ∧ (s.resume sessionId transfer).2.flow = some f' := by
  unfold resume
  split
  · exact .inl rfl
  · next f hf =>
    split
    · exact .inl rfl
    · next f' h => exact .inr ⟨f, f', hf, h, rfl⟩

/-- What a call that is no resume does to a flow that has failed. -/
theorem halted_call (codec : Codec) {s : Secc} {c : Call}
    (hc : ∀ sessionId transfer, c ≠ .resume sessionId transfer) {requests : List Message}
    (h : Halted requests s.flow) :
    Halted (requests ++ requestsOf (s.emits codec c)) (s.call codec c).flow := by
  obtain ⟨acts, heffect, hevents, -⟩ := effect_call codec s c
  have hkept : ∀ {flow : Option Flow}, SameOrFailed s.flow flow → Halted (requests ++ []) flow :=
    fun hsame => h.move (.kept hsame)
  rw [← hevents]
  generalize s.call codec c = s' at heffect ⊢
  cases heffect with
  | opened now => exact hkept (.inl rfl)
  | polled => exact hkept (.inl rfl)
  | taken => exact hkept (.inl rfl)
  | joined sessionId => exact hkept (.inl rfl)
  | resumed flow flow' hflow hprotocol => exact absurd rfl (hc _ _)
  | notResumed => exact absurd rfl (hc _ _)
  | driven hdrives hsteps => exact halted_steps h hsteps
  | ticked now hexpired =>
    rw [eventsOf_map_event]
    cases hexpired with
    | kept timers overdue hflow hdue htimers => exact hkept hflow
    | timedOut timer timers overdue hopen hflow hdue => exact hkept hflow

theorem emits_resume (codec : Codec) (s : Secc) (sessionId : SessionId)
    (transfer : Iso20.EnergyTransfer) : s.emits codec (.resume sessionId transfer) = [] := by
  have hevents : (s.resume sessionId transfer).2.events = s.events := by
    unfold resume
    split
    · rfl
    · split <;> rfl
  rw [emits]
  exact (congrArg (List.drop s.events.length) hevents).trans List.drop_length

/-- A resume hands nothing over, and leaves the latch set. -/
theorem latched_resume {s : Secc} (h : Latched s.flow) (sessionId : SessionId)
    (transfer : Iso20.EnergyTransfer) : Latched (s.resume sessionId transfer).2.flow := by
  rcases s.resume_flow sessionId transfer with hflow | ⟨f, f', hf, hresume, hflow⟩
  · rw [hflow]
    exact h
  · rw [hflow]
    obtain ⟨g, hg, hfailed⟩ := h
    obtain rfl := Option.some.inj (hf.symm.trans hg)
    exact ⟨f', rfl, (Flow.failed_of_resume hresume).trans hfailed⟩

/-- The requests a call hands over. -/
def hands (codec : Codec) (s : Secc) (c : Call) : List Message := requestsOf (s.emits codec c)

/-- **After a failure, over a run.** Induction on the calls. -/
theorem halted_run (codec : Codec) {s : Secc} {rest : List Call}
    (hrest : ∀ c ∈ rest, ∀ sessionId transfer, c ≠ .resume sessionId transfer)
    {requests : List Message} (h : Halted requests s.flow) :
    Halted (requests ++ outputs (call codec) (hands codec) s rest)
      (run (call codec) s rest).flow := by
  induction rest generalizing s requests with
  | nil =>
    rw [outputs_nil, List.append_nil]
    exact h
  | cons c rest ih =>
    obtain ⟨hc, hrest⟩ := List.forall_mem_cons.mp hrest
    rw [outputs_cons, ← List.append_assoc]
    exact ih hrest (halted_call codec hc h)

/-- The latch holds through a resume too, which only takes the flow back to where it stops. -/
theorem latched_call (codec : Codec) {s : Secc} (c : Call) (h : Latched s.flow) :
    Latched (s.call codec c).flow ∧ ∀ m ∈ s.hands codec c, m.name = "SessionStopReq" := by
  by_cases hc : ∀ sessionId transfer, c ≠ .resume sessionId transfer
  · have hcall := halted_call codec hc (.inl ⟨rfl, h⟩)
    exact ⟨hcall.latched, fun m hm => hcall.stops m hm⟩
  · push Not at hc
    obtain ⟨sessionId, transfer, rfl⟩ := hc
    refine ⟨latched_resume h sessionId transfer, fun m hm => ?_⟩
    rw [hands, emits_resume] at hm
    cases hm

theorem stops_of_latched (codec : Codec) {s : Secc} (h : Latched s.flow) (rest : List Call) :
    ∀ m ∈ outputs (call codec) (hands codec) s rest, m.name = "SessionStopReq" := by
  refine forall_outputs_of_invariant (I := fun s : Secc => Latched s.flow) (A := fun _ => True)
    (fun s c h _ => (latched_call codec c h).1) (fun s c h _ => (latched_call codec c h).2) h ?_
  exact fun _ _ => trivial

/-! ### The answer that fails

The flow is told of a failure before the answer is sent, and requests that were buffered are read
after that. -/

/-- A request is answered in a session that has a flow. -/
structure Owing (s : Secc) : Prop where
  synced : Synced s
  owed : s.outstanding.isSome = true → s.flow.isSome = true

/-- A step keeps the flow under a request that is owed. -/
theorem Owing.step {s s' : Secc} {acts : List Act} (h : Owing s) (hstep : Step s acts s') :
    Owing s' := by
  refine ⟨h.synced.step hstep, ?_⟩
  cases hstep with
  | received conn hopen hconn => exact h.owed
  | read hopen hidle hread =>
    cases hread with
    | rejected req frame timers hm hnone => exact h.owed
    | agreed req protocol set flow frame timers hm hnone hnew hsetup => exact fun _ => rfl
    | unknown due timers hm hreq hest hid => exact fun _ => h.synced.settled hest
    | accepted flow flow' due phase timers hreq hid hflow haccept hsetup => exact fun _ => rfl
    | refused flow e event due overdue timers hreq hid hflow haccept hevent =>
      exact fun _ => Option.isSome_iff_exists.mpr ⟨flow, hflow⟩
  | faulted conn hopen hconn => exact fun howed => by cases howed
  | spoiled hflow =>
    intro howed
    rw [hflow.isSome_eq]
    exact h.owed howed
  | answered response o frame timers howed hflow hsetup => exact fun howed => by cases howed
  | ended response o frame why hopen howed hflow hwhy => exact fun howed => by cases howed

/-- A call of the station keeps it so. -/
theorem Owing.effect {s s' : Secc} {c : Call} {acts : List Act} (h : Owing s)
    (heffect : Effect s c acts s') : Owing s' := by
  refine ⟨h.synced.effect heffect, ?_⟩
  cases heffect with
  | opened now => exact h.owed
  | polled => exact h.owed
  | taken => exact h.owed
  | joined sessionId => exact h.owed
  | resumed flow flow' hflow hprotocol => exact fun _ => rfl
  | notResumed => exact h.owed
  | ticked now hexpired =>
    cases hexpired with
    | kept timers overdue hflow hdue htimers =>
      intro howed
      rw [hflow.isSome_eq]
      exact h.owed howed
    | timedOut timer timers overdue hopen hflow hdue =>
      intro howed
      rw [hflow.isSome_eq]
      exact h.owed howed
  | driven hdrives hsteps =>
    exact (hsteps.invariant (g := []) (I := fun _ => Owing)
      (fun _ _ _ _ h hstep => h.step hstep) h).owed

theorem owing_after (codec : Codec) (config : SeccConfig) (calls : List Call) :
    Owing (after codec config calls) := by
  refine invariant_of_effect (I := fun _ _ s => Owing s) codec config ?_ ?_ calls
  · exact ⟨synced_after codec config [], fun howed => by cases howed⟩
  · exact fun _ _ _ _ _ _ h heffect => h.effect heffect

/-- A response that fails and is queued has latched the flow. -/
theorem latched_answer {codec : Codec} {s s' : Secc} {response : Message}
    (howing : Owing s) (hanswer : s.answer codec response = (.ok (), s'))
    (hfails : response.outcome.any Outcome.isFailure = true) : Latched s'.flow := by
  unfold answer at hanswer
  split at hanswer
  · cases hanswer
  split at hanswer
  · cases hanswer
  next o howed =>
  split at hanswer
  · cases hanswer
  dsimp only at hanswer
  split at hanswer
  · cases hanswer
  -- the stamp leaves the response code alone
  have hstamped := (response.sameButHeader_setSessionId s.config.sessionId).outcome
  rw [if_pos (by rw [hstamped]; exact hfails)] at hanswer
  split at hanswer
  · cases hanswer
  · cases hanswer
    refine Flow.latched_recordFailure (howing.owed ?_)
    rw [howed]
    rfl

theorem requestsOf_settle (s : Secc) (now : Instant) :
    ∃ evs, (s.settle now).events = s.events ++ evs ∧ requestsOf evs = []
      ∧ (s.settle now).flow = s.flow := by
  have hsettled := settled_settle s now
  generalize s.settle now = t at hsettled
  cases hsettled with
  | waiting timers hsetup => exact ⟨[], (List.append_nil _).symm, rfl, rfl⟩
  | finished why hopen hwhy => exact ⟨[.closed why], rfl, rfl, rfl⟩

/-- What was buffered behind the failing exchange is read in the call that answers it, and finds
the latch set. -/
theorem halted_respond {codec : Codec} {s : Secc} {now : Instant} {response : Message}
    (howing : Owing s) (hqueued : s.queues codec (.respond now response) ≠ [])
    (hfails : response.outcome.any Outcome.isFailure = true) :
    Halted (s.hands codec (.respond now response)) (s.call codec (.respond now response)).flow := by
  cases hanswer : s.answer codec response with
  | mk result s' =>
    cases result with
    | error e =>
      refine absurd ?_ hqueued
      simp only [queues, hanswer]
    | ok _ =>
      have hcall : s.call codec (.respond now response)
          = (closeOnError ((s'.settle now).pump codec now)).2 := by
        simp only [call, respond, hanswer]
      have hevents : s'.events = s.events := by
        rcases s.answer_cases codec response with ⟨e, flow, h, -⟩ | ⟨o, flow, frame, h, -⟩
        · rw [hanswer] at h
          cases h
        · rw [hanswer] at h
          cases h
          rfl
      obtain ⟨evs, hsettled, hnone, hflow⟩ := s'.requestsOf_settle now
      obtain ⟨acts, hsteps, -⟩ := steps_pump codec (s'.settle now) now
      -- the failure latches the flow before the loop reads the next request
      have hlatched : Halted [] (s'.settle now).flow := by
        rw [hflow]
        exact .inl ⟨rfl, latched_answer howing hanswer hfails⟩
      have hemits : s.emits codec (.respond now response) = evs ++ eventsOf acts := by
        refine emits_eq ?_
        rw [hcall, events_of_steps hsteps, hsettled, hevents, List.append_assoc]
      have hsteps' := halted_steps hlatched hsteps
      rw [hands, hemits, requestsOf_append, hnone, hcall]
      exact hsteps'

end Secc

/-! ## The vehicle

The same for requests on the wire: each of them has been accepted by the flow. -/

namespace Evcc

/-- The request an entry puts on the wire. -/
def Act.sent? : Act → Option Message
  | .sent m => some m
  | .event _ => none

/-- The requests put on the wire, in order. -/
def sentOf (acts : List Act) : List Message := acts.filterMap Act.sent?

@[simp] theorem sentOf_map_event (evs : List Event) : sentOf (evs.map .event) = [] := by
  refine List.filterMap_eq_nil_iff.mpr fun a ha => ?_
  obtain ⟨event, -, rfl⟩ := List.mem_map.mp ha
  rfl

theorem sentOf_logs (codec : Codec) (s : Evcc) (c : Call) :
    sentOf (s.logs codec c) = s.sends codec c := by
  have hsent : sentOf ((s.sends codec c).map .sent) = s.sends codec c := by
    rw [sentOf, List.filterMap_map]
    exact List.filterMap_some
  rw [logs, sentOf, List.filterMap_append]
  show sentOf _ ++ sentOf _ = _
  rw [hsent, sentOf_map_event, List.append_nil]

theorem sameOrFailed_told (flow : Option Flow) (m : Message) : SameOrFailed flow (told flow m) := by
  unfold told
  split
  · exact .inr rfl
  · exact .inl rfl

/-- A session with a flow reads its own generation, and the handshake is of none. -/
theorem sameOrFailed_step {R : Evcc → Message → Prop} {s s' : Evcc} {acts : List Act}
    (hagrees : Agrees s) (hflow : s.flow.isSome = true) (h : Step R s acts s') :
    SameOrFailed s.flow s'.flow := by
  cases h with
  | received conn hopen hconn => exact .inl rfl
  | faulted conn answeredAt hopen hconn => exact .inl rfl
  | read now hopen hread hgen hdispatched =>
    cases hdispatched with
    | rejected res set hm hans => exact .inl rfl
    | agreed res protocol set flow hm hans hnew =>
      obtain ⟨f, hf⟩ := Option.isSome_iff_exists.mp hflow
      rw [hm, hagrees, hf] at hgen
      cases hgen
    | surfaced more timers hm hans hid hmore hongoing hsetup => exact sameOrFailed_told s.flow _
    | ended why hm hans hid hwhy => exact sameOrFailed_told s.flow _

theorem halted_steps {R : Evcc → Message → Prop} {s s' : Evcc} {acts : List Act}
    {requests : List Message} (hagrees : Agrees s) (h : Halted requests s.flow)
    (hsteps : Steps (Step R) s acts s') : Halted requests s'.flow := by
  have hall := hsteps.invariant (g := []) (I := fun _ t => Agrees t ∧ Halted requests t.flow) ?_
    ⟨hagrees, h⟩
  · exact hall.2
  · intro log t l t' ht hstep
    obtain ⟨hagrees, hhalted⟩ := ht
    have hsame := sameOrFailed_step hagrees hhalted.latched.isSome hstep
    have hmoved := hhalted.move (.kept hsame)
    rw [List.append_nil] at hmoved
    exact ⟨agrees_step hagrees hstep, hmoved⟩

/-- What a call that is no resume does to a flow that has failed. -/
theorem halted_call (codec : Codec) {s : Evcc} {c : Call} (hagrees : Agrees s)
    (hc : ∀ transfer, c ≠ .resume transfer) {requests : List Message}
    (h : Halted requests s.flow) :
    Halted (requests ++ s.sends codec c) (s.call codec c).flow := by
  have heffect := effect_call codec s c
  have hkept : Halted (requests ++ []) s.flow := h.move (.kept (.inl rfl))
  rw [← sentOf_logs]
  generalize s.call codec c = s' at heffect ⊢
  generalize s.logs codec c = acts at heffect ⊢
  cases heffect with
  | started now frame hidle hflow hopen =>
    obtain ⟨f, hf, -⟩ := h.latched
    rw [hflow] at hf
    cases hf
  | asked now flow flow' frame phase timers hopen hidle hreq hflow haccept hbudget =>
    exact h.move (.accepted hflow haccept)
  | refused hasks => exact hkept
  | polled => exact hkept
  | taken => exact hkept
  | resumed flow flow' hflow hresume => exact absurd rfl (hc _)
  | notResumed => exact absurd rfl (hc _)
  | ticked now hexpired =>
    rw [sentOf_map_event]
    cases hexpired <;> exact hkept
  | driven now data hsteps =>
    obtain ⟨evs, rfl, -⟩ := acts_of_steps hsteps
    rw [sentOf_map_event, List.append_nil]
    exact halted_steps hagrees h hsteps

theorem agrees_call (codec : Codec) {s : Evcc} (c : Call) (h : Agrees s) :
    Agrees (s.call codec c) := agrees_effect h (effect_call codec s c)

/-- **After a failure, over a run.** Induction on the calls. -/
theorem halted_run (codec : Codec) {s : Evcc} {rest : List Call} (hagrees : Agrees s)
    (hrest : ∀ c ∈ rest, ∀ transfer, c ≠ .resume transfer) {requests : List Message}
    (h : Halted requests s.flow) :
    Halted (requests ++ outputs (call codec) (sends codec) s rest)
      (run (call codec) s rest).flow := by
  induction rest generalizing s requests with
  | nil =>
    rw [outputs_nil, List.append_nil]
    exact h
  | cons c rest ih =>
    obtain ⟨hc, hrest⟩ := List.forall_mem_cons.mp hrest
    rw [outputs_cons, ← List.append_assoc]
    exact ih (agrees_call codec c hagrees) hrest (halted_call codec hagrees hc h)

theorem latched_resume {s : Evcc} (h : Latched s.flow) (transfer : Iso20.EnergyTransfer) :
    Latched (s.resume transfer).2.flow := by
  unfold resume
  split
  · exact h
  · next f hf =>
    split
    · exact h
    · next f' hresume =>
      obtain ⟨g, hg, hfailed⟩ := h
      obtain rfl := Option.some.inj (hf.symm.trans hg)
      exact ⟨f', rfl, (Flow.failed_of_resume hresume).trans hfailed⟩

theorem latched_call (codec : Codec) {s : Evcc} (c : Call) (hagrees : Agrees s)
    (h : Latched s.flow) :
    Latched (s.call codec c).flow ∧ ∀ m ∈ s.sends codec c, m.name = "SessionStopReq" := by
  by_cases hc : ∀ transfer, c ≠ .resume transfer
  · have hcall := halted_call codec hagrees hc (.inl ⟨rfl, h⟩)
    exact ⟨hcall.latched, fun m hm => hcall.stops m hm⟩
  · push Not at hc
    obtain ⟨transfer, rfl⟩ := hc
    exact ⟨latched_resume h transfer, fun m hm => by cases hm⟩

theorem stops_of_latched (codec : Codec) {s : Evcc} (hagrees : Agrees s) (h : Latched s.flow)
    (rest : List Call) :
    ∀ m ∈ outputs (call codec) (sends codec) s rest, m.name = "SessionStopReq" := by
  refine forall_outputs_of_invariant (I := fun s : Evcc => Agrees s ∧ Latched s.flow)
    (A := fun _ => True) ?_ (fun s c h _ => (latched_call codec c h.1 h.2).2) ⟨hagrees, h⟩ ?_
  · exact fun s c h _ => ⟨agrees_call codec c h.1, (latched_call codec c h.1 h.2).1⟩
  · exact fun _ _ => trivial

/-! ### The response that fails

The flow is told of the failure in the call that reads it, before the application can see it. -/

/-- A response that failed has latched the flow by the time it is on record. -/
structure Heard (log : List Act) (s : Evcc) : Prop where
  agrees : Agrees s
  latched : ∀ m ∈ responsesOf log, m.outcome.any Outcome.isFailure = true → Latched s.flow

theorem Heard.quiet {log acts : List Act} {s s' : Evcc} (h : Heard log s)
    (hacts : responsesOf acts = []) (hagrees : Agrees s')
    (hflow : Latched s.flow → Latched s'.flow) : Heard (log ++ acts) s' := by
  refine ⟨hagrees, fun m hm hfails => hflow (h.latched m ?_ hfails)⟩
  rw [responsesOf_append, hacts, List.append_nil] at hm
  exact hm

/-- A response of the session is read into a session that has a flow. -/
theorem flow_of_generation {s : Evcc} {m : Message} (hagrees : Agrees s)
    (hgen : m.generation = s.conn.protocol) (hm : ∀ res, m ≠ .appProtocolRes res)
    (hreq : m.isRequest = false) : s.flow.isSome = true := by
  have hsome := generation_ne_none hm hreq
  rw [hgen, hagrees] at hsome
  cases hflow : s.flow with
  | none =>
    rw [hflow] at hsome
    exact absurd rfl hsome
  | some flow => rfl

theorem Heard.surfaced {log : List Act} {s s' : Evcc} {m : Message} {evs : List Event}
    (h : Heard log s) (hagrees : Agrees s') (hsome : s.flow.isSome = true)
    (hevs : responsesOf (evs.map .event) = [m]) (hflow : s'.flow = told s.flow m) :
    Heard (log ++ evs.map .event) s' := by
  refine ⟨hagrees, fun m' hm' hfails => ?_⟩
  rw [hflow]
  rw [responsesOf_append, hevs] at hm'
  rcases List.mem_append.mp hm' with hm' | hm'
  · exact (sameOrFailed_told s.flow m).latched (h.latched m' hm' hfails)
  · rw [List.mem_singleton.mp hm'] at hfails
    rw [told, if_pos hfails]
    exact Flow.latched_recordFailure hsome

theorem heard_step {R : Evcc → Message → Prop} {log acts : List Act} {s s' : Evcc}
    (h : Heard log s) (hstep : Step R s acts s') : Heard (log ++ acts) s' := by
  have hagrees := agrees_step h.agrees hstep
  have hkept : Latched s.flow → Latched s'.flow := fun hlatched =>
    (sameOrFailed_step h.agrees hlatched.isSome hstep).latched hlatched
  cases hstep with
  | received conn hopen hconn => exact h.quiet rfl hagrees hkept
  | faulted conn answeredAt hopen hconn => exact h.quiet rfl hagrees hkept
  | read now hopen hread hgen hdispatched =>
    cases hdispatched with
    | rejected res set hm hans => exact h.quiet rfl hagrees hkept
    | agreed res protocol set flow hm hans hnew => exact h.quiet rfl hagrees hkept
    | surfaced more timers hm hans hid hmore hongoing hsetup =>
      have hsome := flow_of_generation h.agrees hgen hm hans.response
      exact h.surfaced hagrees hsome (responsesOf_surfaced _ hmore) rfl
    | ended why hm hans hid hwhy =>
      have hsome := flow_of_generation h.agrees hgen hm hans.response
      exact h.surfaced hagrees hsome rfl rfl

/-- In every run of the vehicle a response that failed has latched the flow. -/
theorem heard_after (codec : Codec) (config : EvccConfig) (calls : List Call) :
    Heard (history codec config calls) (after codec config calls) := by
  induction calls using List.reverseRecOn with
  | nil => exact ⟨rfl, fun m hm => by cases hm⟩
  | append_singleton calls c ih =>
    rw [history_concat, after_concat]
    have heffect := effect_call codec (after codec config calls) c
    have hagrees := agrees_call codec c ih.agrees
    have hlatched := fun h => (latched_call codec c ih.agrees h).1
    generalize (after codec config calls).logs codec c = acts at heffect ⊢
    generalize (after codec config calls).call codec c = s' at heffect hagrees hlatched ⊢
    cases heffect with
    | started now frame hidle hflow hopen => exact ih.quiet rfl hagrees hlatched
    | asked now flow flow' frame phase timers hopen hidle hreq hflow haccept hbudget =>
      exact ih.quiet rfl hagrees hlatched
    | refused hasks => exact ih.quiet rfl hagrees hlatched
    | polled => exact ih.quiet rfl hagrees hlatched
    | taken => exact ih.quiet rfl hagrees hlatched
    | resumed flow flow' hflow hresume => exact ih.quiet rfl hagrees hlatched
    | notResumed => exact ih.quiet rfl hagrees hlatched
    | ticked now hexpired => cases hexpired <;> exact ih.quiet rfl hagrees hlatched
    | driven now data hsteps =>
      exact hsteps.invariant (I := Heard) (fun _ _ _ _ h hstep => heard_step h hstep) ih

end Evcc

/-! ## Both sides

The two halves, each about a run split at the call in which the failure comes up. -/

/-- Nothing but `SessionStopReq`, and one at most when the session is not resumed. -/
structure OnlyStops (requests : List Message) (unresumed : Prop) : Prop where
  stops : ∀ m ∈ requests, m.name = "SessionStopReq"
  once : unresumed → requests.length ≤ 1

theorem Secc.onlyStops_respond (codec : Codec) (config : SeccConfig) (before rest : List Call)
    (now : Instant) (response : Message)
    (hqueued : (after codec config before).queues codec (.respond now response) = [response])
    (hfailed : response.outcome = some .failed) :
    OnlyStops
      (outputs (call codec) (hands codec) (after codec config before)
        (.respond now response :: rest))
      (∀ c ∈ rest, ∀ sessionId transfer, c ≠ .resume sessionId transfer) := by
  have hhalted : Halted _ _ := halted_respond (owing_after codec config before)
    (by rw [hqueued]; exact List.cons_ne_nil _ _) (by rw [hfailed]; rfl)
  rw [outputs_cons]
  constructor
  · exact List.forall_mem_append.mpr
      ⟨hhalted.stops, stops_of_latched codec hhalted.latched rest⟩
  · intro hrest
    exact (halted_run codec hrest hhalted).length_le

theorem Evcc.onlyStops_surfaced (codec : Codec) (config : EvccConfig) (before rest : List Call)
    (response : Message) (hsurfaced : response ∈ responsesOf (history codec config before))
    (hfailed : response.outcome = some .failed) :
    OnlyStops (outputs (call codec) (sends codec) (after codec config before) rest)
      (∀ c ∈ rest, ∀ transfer, c ≠ .resume transfer) := by
  have hheard := heard_after codec config before
  have hlatched := hheard.latched response hsurfaced (by rw [hfailed]; rfl)
  constructor
  · exact stops_of_latched codec hheard.agrees hlatched rest
  · intro hrest
    have hhalted := halted_run codec hheard.agrees hrest (.inl ⟨rfl, hlatched⟩)
    rw [List.nil_append] at hhalted
    exact hhalted.length_le

/-- **A failure ends the progress of both drivers.** Of a run of the station in which a response
that fails is queued, the requests handed over in that call and after it; of a run of the vehicle
in which such a response was surfaced, the requests that are sent from then on. -/
theorem failure_ends_progress (codec : Codec) :
    (∀ config before now response rest,
        (Secc.after codec config before).queues codec (.respond now response) = [response] →
        response.outcome = some .failed →
        OnlyStops
          (outputs (Secc.call codec) (Secc.hands codec) (Secc.after codec config before)
            (.respond now response :: rest))
          (∀ c ∈ rest, ∀ sessionId transfer, c ≠ .resume sessionId transfer))
      ∧ ∀ config before rest, ∀ response ∈ Evcc.responsesOf (Evcc.history codec config before),
        response.outcome = some .failed →
        OnlyStops
          (outputs (Evcc.call codec) (Evcc.sends codec) (Evcc.after codec config before) rest)
          (∀ c ∈ rest, ∀ transfer, c ≠ .resume transfer) := by
  constructor
  · intro config before now response rest hqueued hfailed
    exact Secc.onlyStops_respond codec config before rest now response hqueued hfailed
  · intro config before rest response hsurfaced hfailed
    exact Evcc.onlyStops_surfaced codec config before rest response hsurfaced hfailed

/-- `SessionSetupReq` is answered with `FAILED`, and the vehicle stops the session. -/
theorem failure_ends_progress_sessionSetup :
    OnlyStops
        (outputs (Secc.call Message.Golden.exchange) (Secc.hands Message.Golden.exchange)
          (Secc.after Message.Golden.exchange Secc.goldenConfig Secc.goldenSetup)
          [.respond (.fromMillis 300) Message.Golden.sessionSetupFailed,
           .handleInput (.fromMillis 400)
             (Message.Golden.frame .exiEncodedV2gMessage Message.Golden.sessionStopReqIso2)])
        True
      ∧ outputs (Secc.call Message.Golden.exchange) (Secc.hands Message.Golden.exchange)
          (Secc.after Message.Golden.exchange Secc.goldenConfig Secc.goldenSetup)
          [.respond (.fromMillis 300) Message.Golden.sessionSetupFailed,
           .handleInput (.fromMillis 400)
             (Message.Golden.frame .exiEncodedV2gMessage Message.Golden.sessionStopReqIso2)]
        = [Message.Golden.sessionStopRequest]
      ∧ OnlyStops
        (outputs (Evcc.call Message.Golden.exchange) (Evcc.sends Message.Golden.exchange)
          (Evcc.after Message.Golden.exchange Evcc.goldenVehicle
            (Evcc.goldenSetUp ++ [Evcc.goldenAnswer Message.Golden.sessionSetupResFailed]))
          [.request (.fromMillis 4) Message.Golden.sessionStopRequest])
        True := by
  refine ⟨?_, by decide +kernel, ?_⟩
  · obtain ⟨hstops, honce⟩ := (failure_ends_progress Message.Golden.exchange).1 Secc.goldenConfig
      Secc.goldenSetup (.fromMillis 300) Message.Golden.sessionSetupFailed
      [.handleInput (.fromMillis 400)
        (Message.Golden.frame .exiEncodedV2gMessage Message.Golden.sessionStopReqIso2)]
      (by decide +kernel) rfl
    exact ⟨hstops, fun _ => honce (by simp)⟩
  · obtain ⟨hstops, honce⟩ := (failure_ends_progress Message.Golden.exchange).2 Evcc.goldenVehicle
      (Evcc.goldenSetUp ++ [Evcc.goldenAnswer Message.Golden.sessionSetupResFailed])
      [.request (.fromMillis 4) Message.Golden.sessionStopRequest]
      Message.Golden.sessionSetupFailed (by decide +kernel) rfl
    exact ⟨hstops, fun _ => honce (by simp)⟩

end Iso15118
