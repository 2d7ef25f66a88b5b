import Iso15118.Session.Pace
import Iso15118.Secc.Close

/-!
# The station's loop budget

`Session/Pace` for the station: what every function of the engine does to the phase it remembers and
to the timer that bounds it, from one message up to whole runs (**`onBudget_after`**). The clock
has a case of its own, since the station does not end when its budget runs out
(**`handleTimeout_cases`**).

A message is followed through the engine once, and only for the phase and the timer: most functions
touch neither, and `pace_enterPhase` is the one place where a budget is taken. Reading on after the
handshake needs a second look, for the flow is there from then on and the first request may enter a
phase in the same call.
-/

namespace Iso15118.Secc

open Iso15118.Lib Iso15118.Session
open Iso15118.Message (Codec Outcome)

/-! ## One message

A message leaves the budget alone unless the flow moves to another phase. Through the functions
of the engine, one by one, in the terms of `Session/Pace`. -/

def pace (s : Secc) : Pace where
  flow := s.flow
  phase := s.phase
  ongoing := s.timers.deadline .ongoing
  closed := s.closed
  budgets := s.config.loopBudgets

/-- The clock reading a call is made with. -/
def Call.instant : Call → Option Instant
  | .opened now | .handleInput now _ | .respond now _ | .handleTimeout now => some now
  | .joinSession _ | .resume _ _ | .pollEvent | .takeTransmit => none

/-- The call sees the loop budget run out. -/
def Fires (s : Secc) : Call → Prop
  | .handleTimeout now => ∃ d, s.timers.deadline .ongoing = some d ∧ d ≤ now
  | _ => False

theorem pace_arm (s : Secc) {timer : Timer} (h : timer ≠ .ongoing) (now : Instant)
    (after : Millis) : { s with timers := s.timers.arm timer now after }.pace = s.pace := by
  unfold pace
  rw [Timers.deadline_arm_of_ne h.symm]

theorem pace_disarm (s : Secc) {timer : Timer} (h : timer ≠ .ongoing) :
    { s with timers := s.timers.disarm timer }.pace = s.pace := by
  unfold pace
  rw [Timers.deadline_disarm_of_ne h.symm]

variable {role : Role} {entry : Option Instant} {s s' : Secc}

theorem advance_of_eq (h : s'.pace = s.pace) : Pace.Advance role entry s.pace s'.pace := by
  rw [h]
  exact .refl _

theorem advance_close (s : Secc) (why : Close) :
    Pace.Advance role entry s.pace (s.close why).pace := by
  cases hclosed : s.closed with
  | true =>
    rw [close_of_closed hclosed]
    exact .refl _
  | false =>
    rw [close_of_open hclosed]
    exact .ended rfl rfl rfl rfl

theorem advance_closeFatal (s : Secc) : Pace.Advance role entry s.pace s.closeFatal.pace := by
  cases hclosed : s.closed with
  | true =>
    rw [closeFatal, if_pos hclosed]
    exact .refl _
  | false =>
    rw [closeFatal_of_open hclosed]
    exact .ended rfl rfl rfl rfl

theorem advance_closeAfterRefusal {t : Secc} (hpace : t.pace = s.pace) (hopen : t.closed = false) :
    Pace.Advance role entry s.pace t.closeAfterRefusal.pace := by
  rw [← hpace, closeAfterRefusal_of_open hopen]
  exact .ended rfl rfl rfl rfl

/-- Entering a phase keeps the deadline of a phase that is on, and takes a new budget for a new one.
-/
theorem pace_enterPhase {flow : Flow} (s : Secc) (now : Instant) (hflow : s.flow = some flow) :
    (s.enterPhase now).pace
      = { flow := some flow
          phase := some flow.phaseName
          ongoing := if s.phase = some flow.phaseName then s.timers.deadline .ongoing
            else (flow.loopTimeout .secc s.config.loopBudgets).map now.saturatingAdd
          closed := s.closed
          budgets := s.config.loopBudgets } := by
  unfold enterPhase
  rw [hflow]
  dsimp only
  split
  · next hsame =>
    rw [← hsame, ← hflow]
    rfl
  · rw [← hflow]
    unfold pace
    congr 1
    split
    · next budget hbudget => rw [hbudget, Timers.deadline_arm_self, Option.map_some]
    · next hbudget => rw [hbudget, Timers.deadline_disarm_self, Option.map_none]

/-- The handshake agrees on a protocol or leaves the pace where it is, and enters no phase. -/
theorem advance_handshake (codec : Codec) (s : Secc) (now : Instant) (req : AppProtocol.Req) :
    Pace.Advance .secc (some now) s.pace (s.handshake codec req).2.pace := by
  unfold handshake
  split
  · exact .refl _
  · next hflow =>
    have hnone : s.flow = none := by simpa using hflow
    dsimp only
    have hpace := s.pace_disarm (show Timer.communicationSetup ≠ .ongoing by decide)
    split
    · rcases s.conn.send_cases codec (.appProtocolRes .reject) with ⟨e, h⟩ | ⟨frame, -, h⟩
      · rw [h]
        exact advance_of_eq hpace
      · rw [h]
        dsimp only
        rw [← hpace]
        exact advance_close { s with
          timers := s.timers.disarm .communicationSetup
          conn := { s.conn with tx := s.conn.tx ++ frame } } _
    · next a flow hagreed =>
      obtain ⟨a', -, hnew⟩ := Option.bind_eq_some_iff.mp hagreed
      obtain ⟨flow', hnew, heq⟩ := Option.map_eq_some_iff.mp hnew
      cases heq
      rcases s.conn.send_cases codec (.appProtocolRes (.accept a)) with ⟨e, h⟩ | ⟨frame, -, h⟩
      · rw [h]
        exact advance_of_eq hpace
      · rw [h]
        rw [← hpace]
        exact .agreed _ hnone (Flow.atStart_of_new hnew)

/-- **What a message does to the budget.** -/
theorem advance_dispatch (codec : Codec) (s : Secc) (now : Instant) (m : Message)
    (hopen : s.closed = false) :
    Pace.Advance .secc (some now) s.pace (s.dispatch codec now m).2.pace := by
  have hpace := s.pace_arm (show Timer.sequence ≠ .ongoing by decide) now
    s.config.sequenceTimeout
  unfold dispatch
  dsimp only
  -- re-arming the sequence timer is nothing the pace can see
  rw [← hpace]
  split
  · exact advance_handshake codec _ now _
  · split
    · exact .refl _
    · split
      · exact advance_closeAfterRefusal rfl hopen
      · split
        · exact .refl _
        · next flow hflow =>
          -- the flow does not read it, refuses it, or moves on with it
          rcases flow.accept_cases m with ⟨-, h⟩ | ⟨-, e, h⟩ | ⟨-, flow', h, hprotocol⟩
          · rw [h]
            dsimp only
            rw [← show s.flow = some flow from hflow]
            exact .refl _
          · rw [h]
            dsimp only
            rw [← show s.flow = some flow from hflow]
            unfold refuse
            dsimp only
            split
            · exact advance_closeAfterRefusal rfl hopen
            · exact advance_closeAfterRefusal rfl hopen
          · rw [h]
            dsimp only
            have henter := pace_enterPhase
              { s with
                timers := s.timers.arm .sequence now s.config.sequenceTimeout
                flow := some flow'
                established := s.established || m.name = "SessionSetupReq" } now rfl
            have hphase := congrArg Pace.phase henter
            have hongoing := congrArg Pace.ongoing henter
            have hclosed := congrArg Pace.closed henter
            have hbudgets := congrArg Pace.budgets henter
            have hflow' := congrArg Pace.flow henter
            exact .accepted hflow hflow' hprotocol hphase hongoing hclosed hopen hbudgets

theorem isSome_dispatch (codec : Codec) {s : Secc} (now : Instant) (m : Message)
    (hopen : s.closed = false) (hflow : s.flow.isSome = true) :
    (s.dispatch codec now m).2.flow.isSome = true := by
  obtain ⟨evs, h⟩ := dispatched_dispatch codec now m hopen
  generalize s.dispatch codec now m = out at h
  cases h with
  | fault e timers hfault => exact hflow
  | rejected req frame timers hm hnone => exact hflow
  | agreed req protocol set flow frame timers hm hnone hnew hsetup => rfl
  | unknown due timers hm hreq hest hid => exact hflow
  | accepted flow flow' due phase timers hreq hid hflow haccept hsetup => rfl
  | refused flow e event due overdue timers hreq hid hflow' haccept hevent => exact hflow

/-- Once a protocol is agreed, the pump dispatches one message at most. -/
theorem pump_of_isSome (codec : Codec) (s : Secc) (now : Instant) (hflow : s.flow.isSome = true) :
    (∃ conn, (s.pump codec now).2 = { s with conn := conn })
      ∨ ∃ m conn, s.closed = false
          ∧ s.pump codec now = { s with conn := conn }.dispatch codec now m := by
  by_cases hrest : s.AtRest
  · rw [pump_of_atRest codec now hrest]
    exact .inl ⟨s.conn, rfl⟩
  · obtain ⟨hopen, hidle⟩ := not_or.mp hrest
    have hopen : s.closed = false := by simpa using hopen
    have hidle : s.outstanding = none := by simpa using hidle
    cases hnext : s.conn.nextMessage codec with
    | mk result conn =>
      cases result with
      | error e =>
        rw [pump, if_neg (by simp [hopen, hidle]), hnext]
        exact .inl ⟨conn, rfl⟩
      | ok next =>
        cases next with
        | none =>
          rw [pump, if_neg (by simp [hopen, hidle]), hnext]
          exact .inl ⟨conn, rfl⟩
        | some m => exact .inr ⟨m, conn, hopen, pump_of_reads now ⟨hopen, hidle, hnext⟩ hflow⟩

theorem advance_pump_of_isSome (codec : Codec) (s : Secc) (now : Instant)
    (hflow : s.flow.isSome = true) :
    Pace.Advance .secc (some now) s.pace (s.pump codec now).2.pace
      ∧ (s.pump codec now).2.flow.isSome = true := by
  rcases s.pump_of_isSome codec now hflow with ⟨conn, h⟩ | ⟨m, conn, hopen, h⟩
  · rw [h]
    exact ⟨.refl _, hflow⟩
  · rw [h]
    exact ⟨advance_dispatch codec { s with conn := conn } now m hopen,
      isSome_dispatch codec (s := { s with conn := conn }) now m hopen hflow⟩

/-- **What reading does to the budget.** The handshake may be followed by one request. -/
theorem advance_pump (codec : Codec) (s : Secc) (now : Instant) :
    Pace.Advance .secc (some now) s.pace (s.pump codec now).2.pace := by
  cases hflow : s.flow with
  -- with a protocol agreed, no message changes it
  | some flow => exact (s.advance_pump_of_isSome codec now (by rw [hflow]; rfl)).1
  | none =>
    rw [pump]
    split
    · exact .refl _
    · next hrest =>
      have hopen : s.closed = false := by simpa using (not_or.mp hrest).1
      split
      · exact .refl _
      · exact .refl _
      · next m conn hnext =>
        have hadvance := advance_dispatch codec { s with conn := conn } now m hopen
        split
        · next hdispatch =>
          rw [hdispatch] at hadvance
          exact hadvance
        · next s' hdispatch =>
          rw [hdispatch] at hadvance
          -- the first message may agree on one
          by_cases hsome : s'.flow.isSome = true
          · obtain ⟨hmore, hsome'⟩ := s'.advance_pump_of_isSome codec now hsome
            exact .trans_of_none hflow hadvance hsome hmore hsome'
          · -- without a protocol there is nothing more to read
            obtain ⟨evs, h⟩ := dispatched_dispatch codec (s := { s with conn := conn }) now m hopen
            rw [hdispatch] at h
            have hclosed : s'.closed = true := by
              cases h with
              | rejected req frame timers hm hnone => rfl
              | agreed req protocol set flow frame timers hm hnone hnew hsetup =>
                exact absurd rfl hsome
              | unknown due timers hm hreq hest hid => rfl
              | accepted flow flow' due phase timers hreq hid hflow haccept hsetup =>
                exact absurd rfl hsome
              | refused flow e event due overdue timers hreq hid hflow haccept hevent => rfl
            rw [pump_of_atRest codec now (.inl hclosed)]
            exact hadvance

theorem advance_closeOnError (out : Except SeccError Unit × Secc)
    (h : Pace.Advance role entry s.pace out.2.pace) :
    Pace.Advance role entry s.pace (closeOnError out).2.pace := by
  obtain ⟨result, t⟩ := out
  cases result with
  | ok _ => exact h
  | error e =>
    have hfatal : Pace.Advance role entry t.pace t.closeFatal.pace := advance_closeFatal t
    refine ⟨fun hp => hfatal.inPhase (h.inPhase hp), fun hp => hfatal.closed (h.closed hp), ?_⟩
    intro hp
    refine .inl ?_
    exact closeFatal_closed t

theorem advance_handleInput (codec : Codec) (s : Secc) (now : Instant) (data : List UInt8) :
    Pace.Advance .secc (some now) s.pace (s.handleInput codec now data).2.pace := by
  unfold handleInput
  split
  · exact .refl _
  · split
    · exact advance_closeOnError _ (.refl _)
    · next conn h => exact advance_closeOnError _ (advance_pump codec { s with conn := conn } now)

theorem advance_settle (s : Secc) (now : Instant) :
    Pace.Advance .secc (some now) s.pace (s.settle now).pace
      ∧ (s.settle now).pace.current = s.pace.current := by
  have hflow : (s.settle now).flow = s.flow := by
    have hsettled := settled_settle s now
    generalize s.settle now = t at hsettled
    cases hsettled <;> rfl
  refine ⟨?_, by rw [Pace.current, Pace.current]; exact congrArg _ hflow⟩
  unfold settle
  split
  · exact advance_close s _
  · split
    · exact advance_close s _
    · split
      · exact .refl _
      · exact advance_of_eq (s.pace_arm (by decide) now _)

theorem advance_respond (codec : Codec) (s : Secc) (now : Instant) (response : Message) :
    Pace.Advance .secc (some now) s.pace (s.respond codec now response).2.pace := by
  unfold respond
  rcases s.answer_cases codec response with
    ⟨e, flow, h, hflow⟩ | ⟨o, flow, frame, h, howed, hflow, -⟩
  · rw [h]
    exact .kept s.pace hflow
  · rw [h]
    dsimp only
    refine advance_closeOnError _ ?_
    -- the answer, what it settles, and what was waiting behind it
    have hanswer : Pace.Advance .secc (some now) s.pace { s with flow := flow }.pace :=
      .kept s.pace hflow
    have hsettle := advance_settle { s with
      flow := flow
      conn := { s.conn with tx := s.conn.tx ++ frame }
      outstanding := none } now
    exact hanswer.trans (Pace.current_of_kept hflow)
      (hsettle.1.trans hsettle.2 (advance_pump codec _ now))

/-! ## The clock

Here the station differs from the vehicle: a budget that has run out is not the end of the
session but a failure of its flow. -/

/-- With nothing running there is nothing to expire. -/
theorem handleTimeout_of_idle {s : Secc} (now : Instant)
    (h : ∀ timer, s.timers.deadline timer = none) : s.handleTimeout now = s := by
  rw [handleTimeout]
  split
  · rfl
  · next hexpired =>
    rcases s.timers.expired_cases now with ⟨h', -⟩ | ⟨timer, d, h', hd, -⟩
    · rw [h'] at hexpired
      cases hexpired
    · rw [h timer] at hd
      cases hd

/-- Once the session is over, the budget is not started again. -/
theorem pace_handleTimeout_of_closed {s : Secc} (now : Instant) (hclosed : s.closed = true)
    (hnone : s.timers.deadline .ongoing = none) : (s.handleTimeout now).pace = s.pace := by
  fun_induction handleTimeout s now with
  | case1 s timers hexpired => rfl
  | case2 s timer timers hexpired ih =>
    rcases s.timers.expired_cases now with ⟨h, -⟩ | ⟨timer', d, h, hd, -⟩
    · rw [h] at hexpired
      cases hexpired
    · rw [h] at hexpired
      cases hexpired
      have hne : timer ≠ .ongoing := by
        rintro rfl
        rw [hnone] at hd
        cases hd
      rw [expire_of_ne hne, close_of_closed (by exact hclosed)] at ih ⊢
      have hpace := s.pace_disarm hne
      rw [ih hclosed ((congrArg Pace.ongoing hpace).trans hnone), hpace]

/-- **What a clock reading does to an open session.** Nothing; or the budget has run out, which is
remembered, and the flow fails; or the session ends. -/
theorem handleTimeout_cases {s : Secc} (now : Instant) (hopen : s.closed = false) :
    (s.handleTimeout now = s ∧ ∀ d, s.timers.deadline .ongoing = some d → ¬ d ≤ now)
      ∨ (∃ d, s.timers.deadline .ongoing = some d ∧ d ≤ now
          ∧ s.handleTimeout now
            = { s with
                timers := s.timers.disarm .ongoing
                overdue := some (s.flow.elim "unknown" Flow.phaseName)
                flow := s.flow.map Flow.recordFailure })
      ∨ (∃ flow, SameOrFailed s.flow flow
          ∧ (s.handleTimeout now).pace
            = { s.pace with flow := flow, ongoing := none, closed := true }) := by
  fun_induction handleTimeout s now with
  | case1 s timers hexpired =>
    rcases s.timers.expired_cases now with ⟨-, hnone⟩ | ⟨timer, d, h, -⟩
    · exact .inl ⟨rfl, hnone .ongoing⟩
    · rw [h] at hexpired
      cases hexpired
  | case2 s timer timers hexpired ih =>
    rcases s.timers.expired_cases now with ⟨h, -⟩ | ⟨timer', d, h, hd, hle⟩
    · rw [h] at hexpired
      cases hexpired
    rw [h] at hexpired
    cases hexpired
    by_cases hne : timer = .ongoing
    · subst hne
      rw [expire_ongoing (by exact hopen)] at ih ⊢
      rcases ih hopen with ⟨hsame, -⟩ | ⟨d', hd', -⟩ | ⟨flow, hflow, hclosed⟩
      · exact .inr (.inl ⟨d, hd, hle, hsame⟩)
      · -- it has just been disarmed
        rw [Timers.deadline_disarm_self] at hd'
        cases hd'
      · exact .inr (.inr ⟨flow, hflow.of_failed, hclosed⟩)
    · rw [expire_of_ne hne, close_of_open (by exact hopen), handleTimeout_of_idle now fun _ => rfl]
      exact .inr (.inr ⟨s.flow, .inl rfl, rfl⟩)

theorem advance_handleTimeout {s : Secc} (now : Instant) (hs : s.pace.InPhase)
    (hcalm : ¬ s.Fires (.handleTimeout now)) :
    Pace.Advance .secc (some now) s.pace (s.handleTimeout now).pace := by
  cases hclosed : s.closed with
  | true => exact advance_of_eq (pace_handleTimeout_of_closed now hclosed (hs.past hclosed))
  | false =>
    rcases handleTimeout_cases now hclosed with ⟨hsame, -⟩ | ⟨d, hd, hle, -⟩ | ⟨flow, hflow, hpace⟩
    · exact advance_of_eq (congrArg pace hsame)
    · exact absurd ⟨d, hd, hle⟩ hcalm
    · have hkept : Pace.Advance .secc (some now) s.pace { s with flow := flow }.pace :=
        .kept s.pace hflow
      refine hkept.trans (Pace.current_of_kept hflow) ?_
      rw [hpace]
      exact .ended rfl rfl rfl rfl

/-- The budget runs out in the phase it was set for. -/
theorem current_handleTimeout {s : Secc} (now : Instant) :
    (s.handleTimeout now).pace.current = s.pace.current := by
  obtain ⟨evs, h⟩ := expired_handleTimeout s now
  generalize s.handleTimeout now = t at h
  cases h with
  | kept timers overdue hflow hdue htimers => exact Pace.current_of_kept hflow
  | timedOut timer timers overdue hopen hflow hdue => exact Pace.current_of_kept hflow

/-! ## Calls and runs

From what a call does to the budget, by the rule of `Session/Pace`, to what it is after any run. -/

theorem advance_call (codec : Codec) {s : Secc} {c : Call} (hs : s.pace.InPhase)
    (hc : ∀ sessionId transfer, c ≠ .resume sessionId transfer) (hcalm : ¬ s.Fires c) :
    Pace.Advance .secc c.instant s.pace (s.call codec c).pace := by
  cases c with
  | opened now => exact advance_of_eq (s.pace_arm (by decide) now _)
  | handleInput now data => exact advance_handleInput codec s now data
  | respond now response => exact advance_respond codec s now response
  | joinSession sessionId => exact .refl _
  | resume sessionId transfer => exact absurd rfl (hc sessionId transfer)
  | handleTimeout now => exact advance_handleTimeout now hs hcalm
  | pollEvent => exact .refl _
  | takeTransmit => exact .refl _

/-- A budget that has run out is not started again by that. -/
theorem inPhase_of_fires {s : Secc} {now : Instant} (hs : s.pace.InPhase)
    (h : s.Fires (.handleTimeout now)) : (s.handleTimeout now).pace.InPhase := by
  obtain ⟨d, hd, hle⟩ := h
  cases hclosed : s.closed with
  | true =>
    rw [pace_handleTimeout_of_closed now hclosed (hs.past hclosed)]
    exact hs
  | false =>
    have hadvance : ∀ {flow : Option Flow}, SameOrFailed s.flow flow →
        Pace.InPhase { s.pace with flow := flow } := by
      intro flow hflow
      have hkept : Pace.Advance .secc none s.pace { s.pace with flow := flow } := .kept _ hflow
      exact hkept.inPhase hs
    rcases handleTimeout_cases now hclosed with ⟨-, hdue⟩ | ⟨-, -, -, hfired⟩ | ⟨flow, hflow, hpace⟩
    · exact absurd hle (hdue d hd)
    · have hkept := hadvance (.inr rfl)
      rw [hfired]
      have hidle : (s.timers.disarm .ongoing).deadline .ongoing = none :=
        Timers.deadline_disarm_self ..
      exact ⟨hkept.remembered, fun hnone => ⟨hidle, (hkept.fresh hnone).2⟩, fun _ => hidle⟩
    · have hkept := hadvance hflow
      rw [hpace]
      exact ⟨hkept.remembered, fun hnone => ⟨rfl, (hkept.fresh hnone).2⟩, fun _ => rfl⟩

theorem inPhase_call (codec : Codec) {s : Secc} {c : Call} (hs : s.pace.InPhase)
    (hc : ∀ sessionId transfer, c ≠ .resume sessionId transfer) :
    (s.call codec c).pace.InPhase := by
  by_cases hfires : s.Fires c
  · cases c with
    | handleTimeout now => exact inPhase_of_fires hs hfires
    | opened now => exact hfires.elim
    | handleInput now data => exact hfires.elim
    | respond now response => exact hfires.elim
    | joinSession sessionId => exact hfires.elim
    | resume sessionId transfer => exact hfires.elim
    | pollEvent => exact hfires.elim
    | takeTransmit => exact hfires.elim
  · exact (advance_call codec hs hc hfires).inPhase hs

theorem inPhase_new (config : SeccConfig) : (Secc.new config).pace.InPhase :=
  ⟨fun _ h => (by cases h), fun _ => ⟨rfl, fun _ h => (by cases h)⟩, fun _ => rfl⟩

theorem inPhase_after (codec : Codec) (config : SeccConfig) {calls : List Call}
    (hcalls : ∀ c ∈ calls, ∀ sessionId transfer, c ≠ .resume sessionId transfer) :
    (after codec config calls).pace.InPhase :=
  run_of_invariant (I := fun s : Secc => s.pace.InPhase)
    (A := fun c => ∀ sessionId transfer, c ≠ .resume sessionId transfer)
    (fun _ _ hs hc => inPhase_call codec hs hc) (inPhase_new config) hcalls

/-- **The station's budget, over a run.** -/
theorem onBudget_after (codec : Codec) (config : SeccConfig) {calls : List Call}
    (hcalls : ∀ c ∈ calls, ∀ sessionId transfer, c ≠ .resume sessionId transfer)
    {t : Transition Secc Call} {later : List (Transition Secc Call)}
    (hsince : Since (Pace.Enters pace) (trace (call codec) (.new config) calls) t later)
    (hlater : ∀ x ∈ later, ¬ x.before.Fires x.call) :
    Pace.OnBudget .secc t.call.instant (after codec config calls).pace := by
  refine Pace.onBudget_of_since (I := fun s : Secc => s.pace.InPhase) (F := Fires)
    (A := fun c => ∀ sessionId transfer, c ≠ .resume sessionId transfer) (fun _ hs => hs)
    (fun _ _ hs hc => inPhase_call codec hs hc)
    (fun _ _ hs hc hcalm => advance_call codec hs hc hcalm) ?_ (inPhase_new config) hcalls hsince
    hlater
  intro s c _ _ hfires
  cases c with
  | handleTimeout now => exact current_handleTimeout now
  | opened now => exact hfires.elim
  | handleInput now data => exact hfires.elim
  | respond now response => exact hfires.elim
  | joinSession sessionId => exact hfires.elim
  | resume sessionId transfer => exact hfires.elim
  | pollEvent => exact hfires.elim
  | takeTransmit => exact hfires.elim

/-- Closing stops the budget for good, whatever the call that closed. -/
theorem stopped_after (codec : Codec) (config : SeccConfig) {before rest : List Call}
    (hcalls : ∀ c ∈ before ++ rest, ∀ sessionId transfer, c ≠ .resume sessionId transfer)
    (hclosed : (after codec config before).closed = true) :
    (after codec config (before ++ rest)).closed = true
      ∧ (after codec config (before ++ rest)).timers.deadline .ongoing = none := by
  exact Pace.stopped_of_closed pace (I := fun s : Secc => s.pace.InPhase)
    (A := fun c => ∀ sessionId transfer, c ≠ .resume sessionId transfer) (fun _ hs => hs)
    (fun _ _ hs hc => inPhase_call codec hs hc)
    (fun _ c _ _ hover => (emits_of_closed codec c hover).2) (inPhase_new config) hcalls hclosed

end Iso15118.Secc
