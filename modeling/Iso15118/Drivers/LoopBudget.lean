import Iso15118.Secc.Pace
import Iso15118.Drivers.Failure

/-!
# Nobody stretches a loop budget

`Session/Pace` for the two drivers. The budget of a phase runs from the call that entered it, and
neither the vehicle that repeats its request nor the station that repeats its answer moves it. When
it runs out on the station's side, the session goes no further: the vehicle may stop it, and the
next thing it asks for instead is overdue.

What a call may do to the budget is the same on both sides and is in `Session/Pace`; here the calls
of the vehicle are shown to move it that way, and the two runs are read off. The station needs more,
for a budget that has run out there is remembered until the next request: **`lapsed_call`** says
that nothing but the end of the session takes the memory away, and `emits_overdue` what that next
request is told.
-/

namespace Iso15118

open Iso15118.Lib Iso15118.Session
open Iso15118.Message (Codec Outcome)
open Iso15118.Session.Flow (Latched Ended)
open Iso15118.Secc (SameOrFailed)

/-! ## The station, once a budget has run out

A budget that ran out is remembered until the session is over. The flow has failed as well, so
that the next request but a stop is overdue. -/

namespace Secc

/-- The budget has run out: the flow has failed and the phase is on record, or the session is over.
-/
def Lapsed (s : Secc) : Prop :=
  s.closed = true ∨ (Latched s.flow ∧ s.overdue.isSome = true)

theorem lapsed_of_fires {s : Secc} {now d : Instant} (hflow : s.flow.isSome = true)
    (hd : s.timers.deadline .ongoing = some d) (hle : d ≤ now) : Lapsed (s.handleTimeout now) := by
  cases hclosed : s.closed with
  | true =>
    obtain ⟨timers, h⟩ := handleTimeout_of_closed now hclosed
    rw [h]
    exact .inl hclosed
  | false =>
    rcases handleTimeout_cases now hclosed with ⟨-, hdue⟩ | ⟨-, -, -, hfired⟩ | ⟨flow, -, hpace⟩
    · exact absurd hle (hdue d hd)
    · rw [hfired]
      exact .inr ⟨Flow.latched_recordFailure hflow, rfl⟩
    · exact .inl (congrArg Pace.closed hpace)

/-- The record stays until the session is over. -/
theorem overdue_step {s s' : Secc} {acts : List Act} (h : s.overdue.isSome = true)
    (hstep : Step s acts s') : s'.closed = true ∨ s'.overdue.isSome = true := by
  cases hstep with
  | received conn hopen hconn => exact .inr h
  | read hopen hidle hread =>
    cases hread with
    | rejected req frame timers hm hnone => exact .inl rfl
    | agreed req protocol set flow frame timers hm hnone hnew hsetup => exact .inr h
    | unknown due timers hm hreq hest hid => exact .inl rfl
    | accepted flow flow' due phase timers hreq hid hflow haccept hsetup => exact .inr h
    | refused flow e event due overdue timers hreq hid hflow haccept hevent => exact .inl rfl
  | faulted conn hopen hconn => exact .inl rfl
  | spoiled hflow => exact .inr h
  | answered response o frame timers howed hflow hsetup => exact .inr h
  | ended response o frame why hopen howed hflow hwhy => exact .inl rfl

theorem closed_of_step {s s' : Secc} {acts : List Act} (h : s.closed = true)
    (hstep : Step s acts s') : s'.closed = true := by
  have hseals := seals_step hstep
  rw [h] at hseals
  generalize s'.closed = b, eventsOf acts = evs at hseals ⊢
  cases hseals
  rfl

theorem overdue_steps {s s' : Secc} {acts : List Act} (h : s.overdue.isSome = true)
    (hsteps : Steps Step s acts s') : s'.closed = true ∨ s'.overdue.isSome = true := by
  refine hsteps.invariant (g := [])
    (I := fun _ t => t.closed = true ∨ t.overdue.isSome = true) ?_ (.inr h)
  intro log t l t' ht hstep
  rcases ht with hclosed | hoverdue
  · exact .inl (closed_of_step hclosed hstep)
  · exact overdue_step hoverdue hstep

/-- A session whose loop budget has lapsed stays so, and hands nothing to the application but a
stop. -/
theorem lapsed_call (codec : Codec) {s : Secc} (c : Call) (h : Lapsed s) :
    Lapsed (s.call codec c) ∧ ∀ m ∈ s.hands codec c, m.name = "SessionStopReq" := by
  cases hclosed : s.closed with
  | true =>
    obtain ⟨hemits, hclosed⟩ := emits_of_closed codec c hclosed
    refine ⟨.inl hclosed, fun m hm => ?_⟩
    rw [hands, hemits] at hm
    cases hm
  | false =>
    -- it is closed, or latched with the note still there
    rcases h with h | ⟨hlatched, hoverdue⟩
    · rw [hclosed] at h
      cases h
    · obtain ⟨hlatched', hstops⟩ := latched_call codec c hlatched
      refine ⟨?_, hstops⟩
      -- the overdue note is taken by nothing but the end of the session
      have hkept : (s.call codec c).closed = true ∨ (s.call codec c).overdue.isSome = true := by
        cases c with
        | opened now => exact .inr hoverdue
        | handleInput now data =>
          obtain ⟨acts, hsteps, -⟩ := steps_handleInput codec s now data
          exact overdue_steps hoverdue hsteps
        | respond now response =>
          obtain ⟨acts, hsteps, -⟩ := steps_respond codec s now response
          exact overdue_steps hoverdue hsteps
        | joinSession sessionId => exact .inr hoverdue
        | resume sessionId transfer =>
          refine .inr ?_
          show (s.resume sessionId transfer).2.overdue.isSome = true
          unfold resume
          split
          · exact hoverdue
          · split <;> exact hoverdue
        | handleTimeout now =>
          rcases handleTimeout_cases now hclosed with
            ⟨hsame, -⟩ | ⟨-, -, -, hfired⟩ | ⟨flow, -, hpace⟩
          · exact .inr (by rw [call, hsame]; exact hoverdue)
          · exact .inr (by rw [call, hfired]; rfl)
          · exact .inl (congrArg Pace.closed hpace)
        | pollEvent => exact .inr hoverdue
        | takeTransmit => exact .inr hoverdue
      -- and the latch holds across the call
      rcases hkept with hclosed | hoverdue
      · exact .inl hclosed
      · exact .inr ⟨hlatched', hoverdue⟩

theorem hands_handleTimeout (codec : Codec) (s : Secc) (now : Instant) :
    s.hands codec (.handleTimeout now) = [] := by
  obtain ⟨evs, h⟩ := expired_handleTimeout s now
  have hevents : (s.handleTimeout now).events = s.events ++ evs ∧ requestsOf evs = [] := by
    generalize s.handleTimeout now = t at h
    cases h with
    | kept timers overdue hflow hdue htimers => exact ⟨(List.append_nil _).symm, rfl⟩
    | timedOut timer timers overdue hopen hflow hdue => exact ⟨rfl, rfl⟩
  rw [hands, emits_eq (c := .handleTimeout now) hevents.1, hevents.2]

/-- A request other than a stop that a failed flow reads is overdue, when a budget has run out. -/
theorem dispatch_overdue (codec : Codec) {s : Secc} {m : Message} {flow : Flow} {phase : String}
    (now : Instant) (hopen : s.closed = false) (hreq : m.isRequest = true)
    (hid : s.carriesTheSessionId m = true) (hflow : s.flow = some flow)
    (hfailed : flow.failed = true) (hreads : flow.reads m = true)
    (hname : m.name ≠ "SessionStopReq") (hoverdue : s.overdue = some phase) :
    ∃ s', s.dispatch codec now m = (.ok (), s')
      ∧ s'.events
        = s.events ++ [.overdue m (failedCode s.conn.protocol) phase, .closed .refused] := by
  unfold dispatch
  dsimp only
  split
  · -- no flow reads the handshake
    cases flow <;> cases hreads
  · rw [if_neg (by simp [hreq]), if_neg (fun h => h.2 hid), hflow]
    dsimp only
    rcases flow.accept_cases m with ⟨hnot, -⟩ | ⟨-, e, h⟩ | ⟨-, flow', h, -⟩
    · rw [hnot] at hreads
      cases hreads
    · rw [h]
      dsimp only
      refine ⟨_, rfl, ?_⟩
      unfold refuse
      simp only [await, hoverdue]
      rw [closeAfterRefusal_of_open (by exact hopen)]
      simp only [emit, List.append_assoc]
      rfl
    · exact absurd (Flow.stops_of_failed hfailed h).1 hname

/-- **The next request is overdue.** -/
theorem emits_overdue {codec : Codec} {s t : Secc} {c : Call} {now : Instant} {m : Message}
    {conn : Connection} {flow : Flow} (h : Lapsed s) (hreading : s.reading codec c = some (t, now))
    (hread : Reads codec t m conn) (hreq : m.isRequest = true)
    (hid : t.carriesTheSessionId m = true) (hflow : t.flow = some flow)
    (hreads : flow.reads m = true) (hname : m.name ≠ "SessionStopReq") :
    ∃ phase, s.emits codec c
      = [.overdue m (failedCode s.conn.protocol) phase, .closed .refused] := by
  obtain ⟨conn', flow', outstanding, timers, rfl, hprotocol, hsame⟩ :=
    reading_eq hreading hread.isOpen
  rcases h with hclosed | ⟨hlatched, hoverdue⟩
  · rw [show s.closed = false from hread.isOpen] at hclosed
    cases hclosed
  · obtain ⟨phase, hphase⟩ := Option.isSome_iff_exists.mp hoverdue
    obtain ⟨f, hf, hfailed⟩ := hsame.latched hlatched
    obtain rfl := Option.some.inj (hflow.symm.trans hf)
    have hconn : conn.protocol = s.conn.protocol := by
      have hsame := conn'.sameButInput_nextMessage codec
      rw [show conn'.nextMessage codec = _ from hread.next] at hsame
      exact hsame.protocol.trans hprotocol
    obtain ⟨s', hdispatch, hevents⟩ := dispatch_overdue codec
      (s := { s with conn := conn, flow := flow', outstanding := outstanding, timers := timers })
      now hread.isOpen hreq hid hflow hfailed hreads hname hphase
    have hcall := call_of_reading hreading
    rw [pump_of_reads now hread (by rw [hflow]; rfl), hdispatch] at hcall
    refine ⟨phase, emits_eq ?_⟩
    rw [hcall, ← hconn]
    exact hevents

end Secc

/-! ## The vehicle

The vehicle keeps its own budget, from the first request of a phase. What holds of the station's
was said of a clock and a phase, and is used again here. -/

namespace Evcc

def pace (s : Evcc) : Pace where
  flow := s.flow
  phase := s.phase
  ongoing := s.timers.deadline .ongoing
  closed := s.closed
  budgets := s.config.loopBudgets

/-- The clock reading a call is made with. -/
def Call.instant : Call → Option Instant
  | .start now | .request now _ | .handleInput now _ | .handleTimeout now => some now
  | .resume _ | .pollEvent | .takeTransmit => none

/-- The call sees the loop budget run out. -/
def Fires (s : Evcc) : Call → Prop
  | .handleTimeout now => ∃ d, s.timers.deadline .ongoing = some d ∧ d ≤ now
  | _ => False

variable {R : Evcc → Message → Prop} {s s' : Evcc} {acts : List Act}

/-- What one message does to the budget. -/
theorem advance_step {now : Instant} (hagrees : Agrees s) (h : Step R s acts s') :
    Pace.Advance .evcc (some now) s.pace s'.pace := by
  have hkept : ∀ m, Pace.Advance .evcc (some now) s.pace { s.pace with flow := told s.flow m } :=
    fun m => .kept _ (sameOrFailed_told s.flow m)
  cases h with
  | received conn hopen hconn => exact .refl _
  | faulted conn answeredAt hopen hconn => exact .ended rfl rfl rfl rfl
  | read now' hopen hread hgen hdispatched =>
    cases hdispatched with
    | rejected res set hm hans => exact .ended rfl rfl rfl rfl
    | agreed res protocol set flow hm hans hnew =>
      have hnone : s.flow = none := by
        rw [hm, hagrees] at hgen
        exact Option.map_eq_none_iff.mp hgen.symm
      have hagreed : Pace.Advance .evcc (some now) s.pace { s.pace with flow := some flow } :=
        .agreed _ hnone (Flow.atStart_of_new hnew)
      have hongoing : (s.timers.disarm .message).deadline .ongoing = s.timers.deadline .ongoing :=
        Timers.deadline_disarm_of_ne (by decide)
      unfold pace
      rw [hongoing]
      exact hagreed
    | surfaced more timers hm hans hid hmore hongoing hsetup =>
      unfold pace
      rw [hongoing]
      exact hkept _
    | ended why hm hans hid hwhy =>
      refine (hkept _).trans ?_ (.ended rfl rfl rfl rfl)
      exact Pace.current_of_kept (p := s.pace) (sameOrFailed_told s.flow _)

/-- A session that has a flow keeps it, and its phase. -/
theorem current_step (hagrees : Agrees s) (hsome : s.flow.isSome = true) (h : Step R s acts s') :
    s'.flow.isSome = true ∧ s'.pace.current = s.pace.current := by
  have hsame := sameOrFailed_step hagrees hsome h
  exact ⟨by rw [hsame.isSome_eq]; exact hsome, Pace.current_of_kept (p := s.pace) hsame⟩

/-- Reading any number of messages moves the pace forward, and once there is a flow it stays. -/
theorem advance_steps {now : Instant} (hagrees : Agrees s) (h : Steps (Step R) s acts s') :
    Pace.Advance .evcc (some now) s.pace s'.pace
      ∧ (s.flow.isSome = true → s'.flow.isSome = true) := by
  induction h with
  | refl s => exact ⟨.refl _, id⟩
  | head hstep rest ih =>
    obtain ⟨hrest, hkeeps⟩ := ih (agrees_step hagrees hstep)
    next s t r l l' =>
    have hadvance : Pace.Advance .evcc (some now) s.pace t.pace := advance_step hagrees hstep
    cases hflow : s.flow with
    | some flow =>
      obtain ⟨hsome, hcurrent⟩ := current_step hagrees (by rw [hflow]; rfl) hstep
      exact ⟨hadvance.trans hcurrent hrest, fun _ => hkeeps hsome⟩
    | none =>
      refine ⟨?_, fun h => by cases h⟩
      cases hflow' : t.flow with
      | none =>
        have hcurrent : t.pace.current = s.pace.current := by
          show t.flow.map Flow.phaseName = s.flow.map Flow.phaseName
          rw [hflow, hflow']
        exact hadvance.trans hcurrent hrest
      | some flow =>
        have hsome : t.flow.isSome = true := by rw [hflow']; rfl
        exact .trans_of_none hflow hadvance hsome hrest (hkeeps hsome)

/-- A call of the vehicle other than `resume` only moves its pace forward. -/
theorem advance_call (codec : Codec) {s : Evcc} {c : Call} (hagrees : Agrees s)
    (hs : s.pace.InPhase) (hc : ∀ transfer, c ≠ .resume transfer) :
    Pace.Advance .evcc c.instant s.pace (s.call codec c).pace := by
  have heffect := effect_call codec s c
  generalize s.call codec c = s' at heffect ⊢
  generalize s.logs codec c = acts at heffect
  cases heffect with
  | started now frame hidle hflow hopen =>
    have hongoing : ((s.timers.arm .communicationSetup now s.config.setupTimeout).arm .message now
        (s.config.messageTimeout.getD Timing.Iso2.msgTimeoutDefault)).deadline .ongoing
          = s.timers.deadline .ongoing := by
      rw [Timers.deadline_arm_of_ne (by decide), Timers.deadline_arm_of_ne (by decide)]
    unfold pace
    rw [hongoing]
    exact .refl _
  | asked now flow flow' frame phase timers hopen hidle hreq hflow haccept hbudget =>
    have hprotocol := Flow.protocol_of_accept haccept
    exact .accepted hflow rfl hprotocol hbudget.phase hbudget.ongoing rfl hopen rfl
  | refused hasks => exact .refl _
  | polled => exact .refl _
  | taken => exact .refl _
  | resumed flow flow' hflow hresume => exact absurd rfl (hc _)
  | notResumed => exact absurd rfl (hc _)
  | ticked now hexpired =>
    cases hexpired with
    | quiet hdue => exact .refl _
    | timedOut hopen hd hle => exact .ended rfl rfl rfl rfl
    | past timers hclosed htimers =>
      have hnone := hs.past hclosed
      exact .ended hclosed (htimers .ongoing hnone) rfl rfl
  | driven now data hsteps => exact (advance_steps hagrees hsteps).1

theorem inPhase_new (config : EvccConfig) :
    Agrees (.new config) ∧ (Evcc.new config).pace.InPhase :=
  ⟨rfl, fun _ h => (by cases h), fun _ => ⟨rfl, fun _ h => (by cases h)⟩, fun _ => rfl⟩

/-- Both of what the budget rests on outlive a call. -/
theorem inPhase_call (codec : Codec) {s : Evcc} {c : Call} (hs : Agrees s ∧ s.pace.InPhase)
    (hc : ∀ transfer, c ≠ .resume transfer) :
    Agrees (s.call codec c) ∧ (s.call codec c).pace.InPhase :=
  ⟨agrees_call codec c hs.1, (advance_call codec hs.1 hs.2 hc).inPhase hs.2⟩

/-- **The vehicle's budget, over a run.** -/
theorem onBudget_after (codec : Codec) (config : EvccConfig) {calls : List Call}
    (hcalls : ∀ c ∈ calls, ∀ transfer, c ≠ .resume transfer)
    {t : Transition Evcc Call} {later : List (Transition Evcc Call)}
    (hsince : Since (Pace.Enters pace) (trace (call codec) (.new config) calls) t later)
    (hlater : ∀ x ∈ later, ¬ x.before.Fires x.call) :
    Pace.OnBudget .evcc t.call.instant (after codec config calls).pace := by
  refine Pace.onBudget_of_since (I := fun s : Evcc => Agrees s ∧ s.pace.InPhase)
    (F := Fires) (A := fun c => ∀ transfer, c ≠ .resume transfer) (fun _ hs => hs.2)
    (fun _ _ hs hc => inPhase_call codec hs hc)
    (fun _ _ hs hc _ => advance_call codec hs.1 hs.2 hc) ?_ (inPhase_new config) hcalls hsince
    hlater
  intro s c hs hc hfires
  cases c with
  | handleTimeout now =>
    obtain ⟨evs, h⟩ := expired_handleTimeout s now
    show (s.handleTimeout now).pace.current = _
    generalize s.handleTimeout now = t at h
    cases h <;> rfl
  | start now => exact hfires.elim
  | request now m => exact hfires.elim
  | handleInput now data => exact hfires.elim
  | resume transfer => exact hfires.elim
  | pollEvent => exact hfires.elim
  | takeTransmit => exact hfires.elim

/-- Closing stops the vehicle's budget for good. -/
theorem stopped_after (codec : Codec) (config : EvccConfig) {before rest : List Call}
    (hcalls : ∀ c ∈ before ++ rest, ∀ transfer, c ≠ .resume transfer)
    (hclosed : (after codec config before).closed = true) :
    (after codec config (before ++ rest)).closed = true
      ∧ (after codec config (before ++ rest)).timers.deadline .ongoing = none := by
  exact Pace.stopped_of_closed pace (I := fun s : Evcc => Agrees s ∧ s.pace.InPhase)
    (A := fun c => ∀ transfer, c ≠ .resume transfer) (fun _ hs => hs.2)
    (fun _ _ hs hc => inPhase_call codec hs hc)
    (fun _ _ hs hc => (advance_call codec hs.1 hs.2 hc).closed) (inPhase_new config) hcalls
    hclosed

end Evcc

/-! ## Both sides

The two runs side by side, each with its own clock. -/

/-- **Nobody stretches a loop budget.** In a run without a resume, `t` being the call that entered
the phase of the flow and `later` the calls since, none of which saw the budget run out: while the
session is open, the timer is on the budget of the phase from the instant of `t` on. A session that
is closed stays closed, with the timer stopped, whatever is called after it. That is either
driver's. Once a station has seen the budget run out, it hands over nothing but a `SessionStopReq`,
and as long as it goes on, any other request it reads is overdue. -/
theorem loop_budgets_hold (codec : Codec) :
    (∀ config calls,
        (∀ c ∈ calls, ∀ sessionId transfer, c ≠ Secc.Call.resume sessionId transfer) →
        ∀ t later,
        Since (Pace.Enters Secc.pace) (trace (Secc.call codec) (.new config) calls) t later →
        (∀ x ∈ later, ¬ x.before.Fires x.call) →
        Pace.OnBudget .secc t.call.instant (Secc.after codec config calls).pace)
      ∧ (∀ config calls, (∀ c ∈ calls, ∀ transfer, c ≠ Evcc.Call.resume transfer) →
        ∀ t later,
        Since (Pace.Enters Evcc.pace) (trace (Evcc.call codec) (.new config) calls) t later →
        (∀ x ∈ later, ¬ x.before.Fires x.call) →
        Pace.OnBudget .evcc t.call.instant (Evcc.after codec config calls).pace)
      ∧ (∀ config before rest,
        (∀ c ∈ before ++ rest, ∀ sessionId transfer, c ≠ Secc.Call.resume sessionId transfer) →
        (Secc.after codec config before).closed = true →
        (Secc.after codec config (before ++ rest)).closed = true
          ∧ (Secc.after codec config (before ++ rest)).timers.deadline .ongoing = none)
      ∧ (∀ config before rest, (∀ c ∈ before ++ rest, ∀ transfer, c ≠ Evcc.Call.resume transfer) →
        (Evcc.after codec config before).closed = true →
        (Evcc.after codec config (before ++ rest)).closed = true
          ∧ (Evcc.after codec config (before ++ rest)).timers.deadline .ongoing = none)
      ∧ ∀ config before now rest,
        (∀ c ∈ before ++ rest, ∀ sessionId transfer, c ≠ Secc.Call.resume sessionId transfer) →
        (Secc.after codec config before).Fires (.handleTimeout now) →
        (∀ m ∈ outputs (Secc.call codec) (Secc.hands codec) (Secc.after codec config before)
            (.handleTimeout now :: rest), m.name = "SessionStopReq")
          ∧ ∀ c t now' m conn flow,
            (Secc.after codec config (before ++ .handleTimeout now :: rest)).reading codec c
              = some (t, now') →
            Secc.Reads codec t m conn → m.isRequest = true → t.carriesTheSessionId m = true →
            t.flow = some flow → flow.reads m = true → m.name ≠ "SessionStopReq" →
            ∃ phase,
              (Secc.after codec config (before ++ .handleTimeout now :: rest)).emits codec c
                = [.overdue m (Secc.failedCode
                    (Secc.after codec config (before ++ .handleTimeout now :: rest)).conn.protocol)
                    phase,
                  .closed .refused] := by
  refine ⟨fun config calls hcalls t later hsince hlater => ?_,
    fun config calls hcalls t later hsince hlater => ?_,
    fun config before rest hcalls hclosed => ?_, fun config before rest hcalls hclosed => ?_,
    fun config before now rest hcalls hfires => ?_⟩
  · exact Secc.onBudget_after codec config hcalls hsince hlater
  · exact Evcc.onBudget_after codec config hcalls hsince hlater
  · exact Secc.stopped_after codec config hcalls hclosed
  · exact Evcc.stopped_after codec config hcalls hclosed
  · obtain ⟨d, hd, hle⟩ := hfires
    -- the loop budget is looked at in the phase it was started for
    have hphase := Secc.inPhase_after codec config (List.forall_mem_append.mp hcalls).1
    have hlapsed : Secc.Lapsed ((Secc.after codec config before).handleTimeout now) :=
      Secc.lapsed_of_fires (hphase.isSome hd) hd hle
    have hany : ∀ c ∈ rest, True := fun _ _ => trivial
    constructor
    · rw [outputs_cons]
      refine List.forall_mem_append.mpr ⟨fun m hm => ?_, ?_⟩
      · -- a clock reading hands over nothing
        rw [Secc.hands_handleTimeout] at hm
        cases hm
      · exact forall_outputs_of_invariant (I := Secc.Lapsed) (A := fun _ => True)
          (fun s c h _ => (Secc.lapsed_call codec c h).1)
          (fun s c h _ => (Secc.lapsed_call codec c h).2) hlapsed hany
    · intro c t now' m conn flow hreading hread hreq hid hflow hreads hname
      -- what has lapsed stays lapsed, whatever is called after it
      have hlapsed' : Secc.Lapsed
          (Secc.after codec config (before ++ .handleTimeout now :: rest)) := by
        rw [Secc.after, run_append, run_cons]
        exact run_of_invariant (I := Secc.Lapsed) (A := fun _ => True)
          (fun s c h _ => (Secc.lapsed_call codec c h).1) hlapsed hany
      exact Secc.emits_overdue hlapsed' hreading hread hreq hid hflow hreads hname

/-! ### A session of -20 on its way through the authorization

One session, with both ends at the point where the budget of a phase has begun. -/

/-- The station of the vectors, with a second for the authorization. -/
def Secc.goldenPatience : SeccConfig :=
  { goldenConfig with loopBudgets := ⟨some (.fromSecs 1), none⟩ }

/-- Up to the answer to `AuthorizationSetupReq`. -/
def Secc.goldenAuthorizing : List Call :=
  [.opened (.fromMillis 0),
   .handleInput (.fromMillis 100)
     (Message.Golden.frame .exiEncodedV2gMessage Message.Golden.reqAc),
   .handleInput (.fromMillis 200)
     (Message.Golden.frame .part20Main Message.Golden.sessionSetupReqIso20),
   .respond (.fromMillis 300) Message.Golden.sessionJoined,
   .handleInput (.fromMillis 400)
     (Message.Golden.frame .part20Main Message.Golden.authorizationSetupReq),
   .respond (.fromMillis 500) Message.Golden.authorizationSetup]

/-- `AuthorizationReq`, which enters the phase and then repeats in it. -/
def Secc.goldenAuthorization (now : UInt64) : Call :=
  .handleInput (.fromMillis now)
    (Message.Golden.frame .part20Main Message.Golden.authorizationReq)

/-- It is entered, and answered with the authorization still going on. -/
def Secc.goldenLooping : List Call :=
  goldenAuthorizing ++
    [goldenAuthorization 600,
     .respond (.fromMillis 700) Message.Golden.authorizationOngoing]

/-- The vehicle's side, up to the answer to `AuthorizationSetupReq`. -/
def Evcc.goldenAuthorizing : List Call :=
  goldenSetUpIso20 ++
    [.request (.fromMillis 4) Message.Golden.authorizationSetupRequest,
     .handleInput (.fromMillis 5)
       (Message.Golden.frame .part20Main Message.Golden.authorizationSetupRes)]

theorem Secc.reading_handleInput {codec : Codec} {s : Secc} (now : Instant) {data : List UInt8}
    (hopen : s.closed = false) (hreceive : (s.conn.receive data).1 = .ok ()) :
    s.reading codec (.handleInput now data)
      = some ({ s with conn := (s.conn.receive data).2 }, now) := by
  dsimp only [reading]
  rw [if_neg (by simp [hopen])]
  generalize s.conn.receive data = out at hreceive
  obtain ⟨result, conn⟩ := out
  cases hreceive
  rfl

/-- The station when the budget of the authorization has run out. -/
def Secc.goldenLate : Secc :=
  after Message.Golden.exchange goldenPatience
    (goldenLooping ++ .handleTimeout (.fromMillis 1600) :: [])

/-- The same with the next request in its buffer. -/
def Secc.goldenOverdue : Secc :=
  { goldenLate with
    conn := (goldenLate.conn.receive
      (Message.Golden.frame .part20Main Message.Golden.authorizationReq)).2 }

/-- It takes the request, which is of its session and in its flow. -/
theorem Secc.reads_goldenOverdue :
    (goldenLate.closed = false
        ∧ (goldenLate.conn.receive
          (Message.Golden.frame .part20Main Message.Golden.authorizationReq)).1 = .ok ()
        ∧ goldenLate.conn.protocol = some .iso20)
      ∧ (goldenOverdue.closed = false ∧ goldenOverdue.outstanding = none
        ∧ (goldenOverdue.conn.nextMessage Message.Golden.exchange).1
          = .ok (some Message.Golden.authorizationRequest))
      ∧ goldenOverdue.carriesTheSessionId Message.Golden.authorizationRequest = true
      ∧ goldenOverdue.flow.any (fun flow => flow.reads Message.Golden.authorizationRequest)
        = true := by
  decide +kernel

/-- Bytes that are no frame. -/
def noFrame : List UInt8 := [0xff, 0, 0, 0, 0, 0, 0, 0]

/-- The request is answered within its budget, which runs out, and the next one is overdue. The
vehicle's budget starts with the first of them. On either side bytes that are no frame stop it, and
what comes after them does not start it again. -/
theorem loop_budgets_hold_authorization :
    Pace.OnBudget .secc (some (.fromMillis 600))
        (Secc.after Message.Golden.exchange Secc.goldenPatience
          (Secc.goldenAuthorizing ++ Secc.goldenAuthorization 600
            :: [.respond (.fromMillis 700) Message.Golden.authorizationOngoing])).pace
      ∧ Pace.OnBudget .evcc (some (.fromMillis 6))
        (Evcc.after Message.Golden.exchange Evcc.goldenVehicleIso20
          (Evcc.goldenAuthorizing ++ .request (.fromMillis 6) Message.Golden.authorizationRequest
            :: [])).pace
      ∧ ((Secc.after Message.Golden.exchange Secc.goldenPatience
            ((Secc.goldenLooping ++ [.handleInput (.fromMillis 800) noFrame])
              ++ [Secc.goldenAuthorization 900])).closed = true
        ∧ (Secc.after Message.Golden.exchange Secc.goldenPatience
            ((Secc.goldenLooping ++ [.handleInput (.fromMillis 800) noFrame])
              ++ [Secc.goldenAuthorization 900])).timers.deadline .ongoing = none)
      ∧ ((Evcc.after Message.Golden.exchange Evcc.goldenVehicleIso20
            ((Evcc.goldenAuthorizing ++ [.handleInput (.fromMillis 6) noFrame])
              ++ [.request (.fromMillis 7) Message.Golden.authorizationRequest])).closed = true
        ∧ (Evcc.after Message.Golden.exchange Evcc.goldenVehicleIso20
            ((Evcc.goldenAuthorizing ++ [.handleInput (.fromMillis 6) noFrame])
              ++ [.request (.fromMillis 7) Message.Golden.authorizationRequest])).timers.deadline
            .ongoing = none)
      ∧ ∃ phase,
        (Secc.after Message.Golden.exchange Secc.goldenPatience
          (Secc.goldenLooping ++ .handleTimeout (.fromMillis 1600) :: [])).emits
            Message.Golden.exchange (Secc.goldenAuthorization 1700)
          = [.overdue Message.Golden.authorizationRequest (Secc.failedCode (some .iso20)) phase,
            .closed .refused] := by
  obtain ⟨hsecc, hevcc, hsecc', hevcc', hoverdue⟩ := loop_budgets_hold Message.Golden.exchange
  refine ⟨?_, ?_, ?_, ?_, ?_⟩
  -- the phase is entered by the request, and the answer leaves it as it is
  · have hsince := Pace.since_of_enters (Secc.call Message.Golden.exchange) Secc.pace
      (.new Secc.goldenPatience) Secc.goldenAuthorizing (Secc.goldenAuthorization 600)
      [.respond (.fromMillis 700) Message.Golden.authorizationOngoing] (by decide +kernel) (by
        intro x hx
        rw [trace_cons] at hx
        rw [List.mem_singleton.mp hx]
        decide +kernel)
    refine hsecc Secc.goldenPatience _
      (by simp [Secc.goldenAuthorizing, Secc.goldenAuthorization]) _ _ hsince ?_
    intro x hx
    rw [trace_cons] at hx
    rw [List.mem_singleton.mp hx]
    exact id
  -- on the vehicle's side it is entered by the request itself
  · have hsince := Pace.since_of_enters (Evcc.call Message.Golden.exchange) Evcc.pace
      (.new Evcc.goldenVehicleIso20) Evcc.goldenAuthorizing
      (.request (.fromMillis 6) Message.Golden.authorizationRequest) [] (by decide +kernel)
      (fun x hx => by cases hx)
    refine hevcc Evcc.goldenVehicleIso20 _
      (by simp [Evcc.goldenAuthorizing, Evcc.goldenSetUpIso20]) _ _ hsince ?_
    exact fun x hx => by cases hx
  -- bytes that are no frame close either session, and with it the budget
  · exact hsecc' _ _ _ (by simp [Secc.goldenLooping, Secc.goldenAuthorizing,
      Secc.goldenAuthorization]) (by decide +kernel)
  · exact hevcc' _ _ _ (by simp [Evcc.goldenAuthorizing, Evcc.goldenSetUpIso20])
      (by decide +kernel)
  -- the request behind the expired budget is of the session and is read by its flow
  · obtain ⟨⟨hopen, hreceive, hprotocol⟩, ⟨hopen', hidle, hnext⟩, hcarries, hreads⟩ :=
      Secc.reads_goldenOverdue
    obtain ⟨flow, hflow, hreads⟩ := (Option.any_eq_true _ _).mp hreads
    rw [← hprotocol]
    refine (hoverdue Secc.goldenPatience Secc.goldenLooping (.fromMillis 1600) [] ?_
      ⟨.fromMillis 1600, by decide +kernel, Nat.le_refl _⟩).2 (Secc.goldenAuthorization 1700)
      Secc.goldenOverdue _ Message.Golden.authorizationRequest _ flow
      (Secc.reading_handleInput _ hopen hreceive) ⟨hopen', hidle, Prod.ext hnext rfl⟩
      (by decide) hcarries hflow hreads (by decide)
    simp [Secc.goldenLooping, Secc.goldenAuthorizing, Secc.goldenAuthorization]

/-- A frame that is none ends the session, and the budget of its phase is no longer running. -/
theorem closing_stops_the_budget :
    ¬ ∀ config calls,
      (∀ c ∈ calls, ∀ sessionId transfer, c ≠ Secc.Call.resume sessionId transfer) →
      ∀ t later,
      Since (Pace.Enters Secc.pace)
        (trace (Secc.call Message.Golden.exchange) (.new config) calls) t later →
      (∀ x ∈ later, ¬ x.before.Fires x.call) →
      ∃ now, t.call.instant = some now
        ∧ (Secc.after Message.Golden.exchange config calls).pace.ongoing
          = ((Secc.after Message.Golden.exchange config calls).pace.budget .secc).map
              now.saturatingAdd := by
  intro h
  have hsince := Pace.since_of_enters (Secc.call Message.Golden.exchange) Secc.pace
    (.new Secc.goldenPatience) Secc.goldenAuthorizing (Secc.goldenAuthorization 600)
    [.handleInput (.fromMillis 700) noFrame] (by decide +kernel) (by
      intro x hx
      rw [trace_cons] at hx
      rw [List.mem_singleton.mp hx]
      decide +kernel)
  obtain ⟨now, -, hongoing⟩ := h Secc.goldenPatience _
    (by simp [Secc.goldenAuthorizing, Secc.goldenAuthorization]) _ _ hsince (by
      intro x hx
      rw [trace_cons] at hx
      rw [List.mem_singleton.mp hx]
      exact id)
  have hstopped := congrArg Option.isSome hongoing
  rw [Option.isSome_map] at hstopped
  exact absurd hstopped (by decide +kernel)

end Iso15118
