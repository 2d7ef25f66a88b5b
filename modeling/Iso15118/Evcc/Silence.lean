import Iso15118.Session.Alarm
import Iso15118.Evcc.Effect

/-!
# A station that falls silent

The vehicle's half of `Secc/Silence`. What the vehicle asks starts its message timer, and what it
reads stops it and is what it asked for; so as long as an answer is owed the timer runs, for the
time the request allows. **`unanswered_ends`**: a vehicle that is owed an answer asks to be woken,
no later than that, and being woken ends the session.

As on the other side, the invariant (`Timed`) names the call the deadline comes from: the last one
that made anything outstanding. Reading the answer stops the timer and clears what is outstanding in
one step, so as long as something is outstanding its timer runs.
-/

namespace Iso15118.Evcc

open Iso15118.Lib Iso15118.Session
open Iso15118.Message (Codec)

/-- `Evcc::poll_timeout`. -/
def pollTimeout (s : Evcc) : Option Instant := s.timers.nextDeadline

/-- The time a request allows for its answer, from where it was sent. -/
def dueAt (config : EvccConfig) (now : Instant) (budget : Millis) : Instant :=
  now.saturatingAdd (config.messageTimeout.getD budget)

/-! ## The call that asked

A deadline is tied to the call it was counted from, and that call to its place in the run: the
last one that made anything outstanding. -/

/-- The call has put a request, or the offer, on its way: nothing was owed before it, and an answer
is owed after it. -/
def MakesOwed (t : Transition Evcc Call) : Prop :=
  t.before.outstanding = none ∧ t.after.outstanding ≠ none

/-- The call asked for `name`, which is due at `d`. -/
inductive Asked (config : EvccConfig) (t : Transition Evcc Call) : String → Instant → Prop where
  | start {now : Instant} (h : t.call = .start now) :
      Asked config t "supportedAppProtocolReq" (dueAt config now Timing.Iso2.msgTimeoutDefault)
  | request {now : Instant} {m : Message} (h : t.call = .request now m) :
      Asked config t m.name
        (dueAt config now (responseTimeout (m.setSessionId t.before.sessionId).2))

/-- What is owed is what the last call that put anything on its way has asked for. -/
def AskedAt (codec : Codec) (config : EvccConfig) (calls : List Call) (name : String)
    (d : Instant) : Prop :=
  ∃ t later, Since MakesOwed (trace (call codec) (.new config) calls) t later
    ∧ t.after.outstanding = some name ∧ Asked config t name d

/-- As long as an answer is owed, the message timer is running for it. -/
structure Timed (codec : Codec) (config : EvccConfig) (calls : List Call) (s : Evcc) : Prop where
  reached : s = after codec config calls
  sameConfig : s.config = config
  owed : s.closed = false → ∀ name, s.outstanding = some name →
    ∃ d, s.timers.deadline .message = some d ∧ AskedAt codec config calls name d

variable {codec : Codec} {config : EvccConfig} {calls : List Call} {s s' : Evcc}

theorem AskedAt.append {name : String} {d : Instant} (h : AskedAt codec config calls name d)
    {c : Call} (hc : ¬ MakesOwed (taken (call codec) (after codec config calls) c)) :
    AskedAt codec config (calls ++ [c]) name d := by
  obtain ⟨t, later, hsince, hname, hasked⟩ := h
  refine ⟨t, later ++ [taken (call codec) (after codec config calls) c], ?_, hname, hasked⟩
  rw [trace_concat]
  exact hsince.concat hc

theorem config_enterPhase (s : Evcc) (now : Instant) : (s.enterPhase now).config = s.config := by
  unfold enterPhase
  split
  · rfl
  · split <;> rfl

/-- A request that has gone out has its time. -/
theorem deadline_of_request {codec : Codec} {now : Instant} {m : Message}
    (h : s.request codec now m = (.ok (), s')) :
    s'.timers.deadline .message
      = some (dueAt s.config now (responseTimeout (m.setSessionId s.sessionId).2)) := by
  unfold request at h
  split at h
  · cases h
  · split at h
    · cases h
    · split at h
      · cases h
      · cases h
      · next flow hidle hflow =>
        split at h
        · cases h
        · dsimp only at h
          split at h
          · cases h
          · next conn hsend =>
            split at h
            · cases h
            · cases h
              unfold await
              rw [config_enterPhase]
              exact Timers.deadline_arm_self ..

/-- A call after which less is owed than before asks for nothing. -/
theorem Timed.keep (h : Timed codec config calls s) (c : Call)
    (hconfig : (s.call codec c).config = s.config)
    (howed : (s.call codec c).closed = false → ∀ name, (s.call codec c).outstanding = some name →
      s.closed = false ∧ s.outstanding = some name
        ∧ (s.call codec c).timers.deadline .message = s.timers.deadline .message) :
    Timed codec config (calls ++ [c]) (s.call codec c) := by
  refine ⟨by rw [after_concat, ← h.reached], hconfig.trans h.sameConfig, fun hopen name hname => ?_⟩
  obtain ⟨hopen', hname', hsame⟩ := howed hopen name hname
  obtain ⟨d, hd, hasked⟩ := h.owed hopen' name hname'
  refine ⟨d, hsame.trans hd, hasked.append ?_⟩
  rw [← h.reached]
  rintro ⟨hidle, -⟩
  rw [show s.outstanding = none from hidle] at hname'
  cases hname'

/-- A call that has put something on its way has started the timer for it. -/
theorem Timed.asked (h : Timed codec config calls s) {c : Call} {name : String} {d : Instant}
    (hconfig : (s.call codec c).config = s.config) (hidle : s.outstanding = none)
    (hname : (s.call codec c).outstanding = some name)
    (hd : (s.call codec c).timers.deadline .message = some d)
    (hasked : Asked config (taken (call codec) s c) name d) :
    Timed codec config (calls ++ [c]) (s.call codec c) := by
  refine ⟨by rw [after_concat, ← h.reached], hconfig.trans h.sameConfig, fun _ name' hname' => ?_⟩
  obtain rfl := Option.some.inj (hname.symm.trans hname')
  refine ⟨d, hd, taken (call codec) s c, [], ?_, hname, hasked⟩
  rw [trace_concat, show run (call codec) (.new config) calls = s from h.reached.symm]
  refine since_concat_self ⟨hidle, ?_⟩
  rw [show (taken (call codec) s c).after.outstanding = _ from hname]
  exact Option.some_ne_none _

/-- What the steps of a call that reads leave owed was owed before, and has the same time. -/
theorem owed_of_steps {R : Evcc → Message → Prop} {acts : List Act}
    (h : Steps (Step R) s acts s') : s'.config = s.config
      ∧ (s'.closed = false → ∀ name, s'.outstanding = some name → s.closed = false
        ∧ s.outstanding = some name
        ∧ s'.timers.deadline .message = s.timers.deadline .message) := by
  refine h.invariant (g := [])
    (I := fun _ t => t.config = s.config ∧ (t.closed = false → ∀ name, t.outstanding = some name →
      s.closed = false ∧ s.outstanding = some name
        ∧ t.timers.deadline .message = s.timers.deadline .message)) ?_
    ⟨rfl, fun hopen name hname => ⟨hopen, hname, rfl⟩⟩
  rintro log t l t' ⟨hconfig, howed⟩ hstep
  cases hstep with
  | received conn hopen hconn => exact ⟨hconfig, howed⟩
  | faulted conn answeredAt hopen hconn => exact ⟨hconfig, fun hopen => by cases hopen⟩
  | read now hopen hread hgen h =>
    -- whatever is read, nothing is owed after it
    cases h with
    | rejected res set hm hans => exact ⟨hconfig, fun hopen => by cases hopen⟩
    | agreed res protocol set flow hm hans hnew =>
      exact ⟨hconfig, fun _ name hname => by cases hname⟩
    | surfaced more timers hm hans hid hmore hongoing hsetup hgoes =>
      exact ⟨hconfig, fun _ name hname => by cases hname⟩
    | ended why hm hans hid hwhy => exact ⟨hconfig, fun hopen => by cases hopen⟩

/-- **Every call keeps the time of what is owed.** -/
theorem timed_call (h : Timed codec config calls s) (c : Call) :
    Timed codec config (calls ++ [c]) (s.call codec c) := by
  -- a call that is turned down changes nothing
  have hsame : ∀ {c}, s.call codec c = s → Timed codec config (calls ++ [c]) (s.call codec c) :=
    fun {c} hcall => h.keep c (by rw [hcall]) fun hopen name hname => by
      rw [hcall] at hopen hname ⊢
      exact ⟨hopen, hname, rfl⟩
  cases c with
  -- the offer goes out, with the time of the handshake
  | start now =>
    rcases s.start_cases codec now with ⟨e, hstart⟩ | ⟨frame, hidle, -, -, -, hstart⟩
    · exact hsame (congrArg Prod.snd hstart)
    · have hcall : s.call codec (.start now) = _ := congrArg Prod.snd hstart
      have hasked : Asked config (taken (call codec) s (.start now)) "supportedAppProtocolReq"
          (dueAt config now Timing.Iso2.msgTimeoutDefault) := .start rfl
      refine h.asked (by rw [hcall]) hidle (by rw [hcall]) ?_ hasked
      rw [hcall, ← h.sameConfig]
      exact Timers.deadline_arm_self ..
  -- a request goes out, with the time its message is given
  | request now m =>
    rcases s.request_cases codec now m with ⟨e, hrequest⟩ |
      ⟨flow, flow', frame, phase, timers, -, hidle, -, -, -, -, -, hrequest⟩
    · exact hsame (congrArg Prod.snd hrequest)
    · have hcall : s.call codec (.request now m) = _ := congrArg Prod.snd hrequest
      have hasked : Asked config (taken (call codec) s (.request now m)) m.name
          (dueAt config now (responseTimeout (m.setSessionId s.sessionId).2)) := .request rfl
      refine h.asked (by rw [hcall]) hidle (by rw [hcall]) ?_ hasked
      have hdue := deadline_of_request hrequest
      rw [hcall, ← h.sameConfig]
      exact hdue
  -- reading leaves as much owed as before, or less
  | handleInput now data =>
    obtain ⟨acts, hsteps, -⟩ := steps_handleInput codec s now data
    obtain ⟨hconfig, howed⟩ := owed_of_steps hsteps
    exact h.keep _ hconfig howed
  | resume transfer =>
    have hresume : s.call codec (.resume transfer)
        = { s with flow := (s.resume transfer).2.flow } := by
      show (s.resume transfer).2 = _
      unfold resume
      split
      · rfl
      · split <;> rfl
    refine h.keep _ (by rw [hresume]) fun hopen name hname => ?_
    rw [hresume] at hopen hname ⊢
    exact ⟨hopen, hname, rfl⟩
  -- a reading of the clock changes nothing, or ends the session
  | handleTimeout now =>
    obtain ⟨evs, hexpired⟩ := expired_handleTimeout s now
    have hkept : (s.handleTimeout now).config = s.config
        ∧ ((s.handleTimeout now).closed = false → s.handleTimeout now = s) := by
      generalize s.handleTimeout now = out at hexpired
      cases hexpired with
      | quiet hdue => exact ⟨rfl, fun _ => rfl⟩
      | timedOut hopen hd hle => exact ⟨rfl, fun hopen => by cases hopen⟩
      | past timers hclosed htimers =>
        refine ⟨rfl, fun hopen => ?_⟩
        rw [hclosed] at hopen
        cases hopen
    refine h.keep _ hkept.1 fun hopen name hname => ?_
    have hcall : s.call codec (.handleTimeout now) = s := hkept.2 hopen
    rw [hcall] at hopen hname ⊢
    exact ⟨hopen, hname, rfl⟩
  | pollEvent => exact h.keep _ rfl fun hopen name hname => ⟨hopen, hname, rfl⟩
  | takeTransmit => exact h.keep _ rfl fun hopen name hname => ⟨hopen, hname, rfl⟩

theorem timed_after (codec : Codec) (config : EvccConfig) (calls : List Call) :
    Timed codec config calls (after codec config calls) := by
  induction calls using List.reverseRecOn with
  | nil => exact ⟨rfl, rfl, fun _ name hname => by cases hname⟩
  | append_singleton calls c ih =>
    rw [after_concat]
    exact timed_call ih c

/-! ## Silence

From the invariant: there is an alarm, and whoever is woken by it ends the session. -/

/-- **An answer that does not come does not keep the vehicle.** Whatever it has done so far, an open
vehicle that is owed an answer asks to be woken, no later than the time the request it is owed the
answer to allows, from the call that put it on its way; and from that alarm on, the session is
over. -/
theorem unanswered_ends (codec : Codec) (config : EvccConfig) (calls : List Call) (name : String)
    (hopen : (after codec config calls).closed = false)
    (howed : (after codec config calls).outstanding = some name) :
    ∃ d last, (after codec config calls).pollTimeout = some d ∧ d ≤ last
      ∧ AskedAt codec config calls name last
      ∧ ∀ now, d ≤ now → ((after codec config calls).handleTimeout now).closed = true
        ∧ ((after codec config calls).handleTimeout now).pollTimeout = none := by
  obtain ⟨last, hlast, hasked⟩ := (timed_after codec config calls).owed hopen name howed
  generalize after codec config calls = s at hopen howed hlast ⊢
  obtain ⟨d, hd, hle⟩ := Timers.exists_nextDeadline hlast
  refine ⟨d, last, hd, hle, hasked, fun now hnow => ?_⟩
  obtain ⟨timer, htimer⟩ := Timers.deadline_of_nextDeadline hd
  obtain ⟨evs, hexpired⟩ := expired_handleTimeout s now
  generalize s.handleTimeout now = out at hexpired
  cases hexpired with
  | quiet hdue => exact absurd hnow (hdue timer d htimer)
  | timedOut hopen' hd' hle' => exact ⟨rfl, rfl⟩
  | past timers hclosed htimers =>
    rw [hopen] at hclosed
    cases hclosed

/-- The handshake, and then `SessionSetupReq`. -/
def goldenAsking : List Call :=
  [.start (.fromMillis 0), .takeTransmit,
   .handleInput (.fromMillis 2)
     (Message.Golden.frame .exiEncodedV2gMessage [0x80, 0x40, 0x00, 0x40]),
   .request (.fromMillis 3) Message.Golden.sessionSetupRequest]

/-- A vehicle whose second question is not answered: what it waits for is that, by the time the
second question allows. -/
theorem unanswered_ends_sessionSetup :
    ∃ d last, (after Message.Golden.exchange goldenVehicle goldenAsking).pollTimeout = some d
      ∧ d ≤ last
      ∧ AskedAt Message.Golden.exchange goldenVehicle goldenAsking "SessionSetupReq" last
      ∧ ∀ now, d ≤ now →
        ((after Message.Golden.exchange goldenVehicle goldenAsking).handleTimeout now).closed = true
          ∧ ((after Message.Golden.exchange goldenVehicle goldenAsking).handleTimeout
            now).pollTimeout = none :=
  unanswered_ends Message.Golden.exchange goldenVehicle goldenAsking "SessionSetupReq"
    (by decide +kernel) (by decide +kernel)

end Iso15118.Evcc
