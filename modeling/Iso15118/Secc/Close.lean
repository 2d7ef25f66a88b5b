import Iso15118.Secc.Effect

/-!
# How a session ends

A session is closed once, from whichever of its ends it reaches first, and its last event says so:
**`closes_once`**.

Whether that event is also the end of what the station writes depends on the request still to be
answered. A refusal leaves it, so that the refusal can go out. Every other end but one finds it
answered or drops it; a timer that runs out (**`CutsOff`**) does neither, and the answer to it is
still put on the wire afterwards.
-/

namespace Iso15118.Secc

open Iso15118.Lib Iso15118.Session
open Iso15118.Message (Codec Outcome)

def Event.isClosed : Event → Bool
  | .closed _ => true
  | _ => false

/-! ## One event ends the session

`Seals` relates a list of events to whether the session was closed before and is closed after
them. It is transitive, so it passes from the steps of a call to the call and to the run. -/

/-- How `evs` take a session that was closed, or was not, to one that is, or is not: a closed
session says nothing more, and an open one is closed by its last event or not at all. -/
inductive Seals : Bool → List Event → Bool → Prop where
  | done : Seals true [] true
  | still {evs : List Event} (h : ∀ e ∈ evs, e.isClosed = false) : Seals false evs false
  | ends (evs : List Event) (h : ∀ e ∈ evs, e.isClosed = false) (why : Close) :
      Seals false (evs ++ [.closed why]) true

theorem Seals.refl (b : Bool) : Seals b [] b := by
  cases b with
  | false => exact .still fun e he => (by cases he)
  | true => exact .done

theorem Seals.trans {a b c : Bool} {xs ys : List Event} (h : Seals a xs b) (h' : Seals b ys c) :
    Seals a (xs ++ ys) c := by
  cases h with
  | done => exact h'
  | ends xs h why =>
    -- closed by `xs`, so `ys` is empty
    cases h'
    rw [List.append_nil]
    exact .ends xs h why
  | still h =>
    cases h' with
    | still h' => exact .still (List.forall_mem_append.mpr ⟨h, h'⟩)
    | ends ys h' why =>
      rw [← List.append_assoc]
      exact .ends _ (List.forall_mem_append.mpr ⟨h, h'⟩) why

theorem Dispatched.seals {s s' : Secc} {m : Message} {evs : List Event}
    (h : Dispatched s m evs (.ok (), s')) (hopen : s.closed = false) :
    Seals s.closed evs s'.closed := by
  cases h with
  | rejected req frame timers hm hflow =>
    rw [hopen]
    exact .ends [] (fun e he => (by cases he)) .noCommonProtocol
  | agreed req protocol set flow frame timers hm hflow hnew hsetup =>
    rw [hopen]
    exact .still (by simp [Event.isClosed])
  | unknown due timers hm hreq hest hid =>
    rw [hopen]
    exact .ends [_] (by simp [Event.isClosed]) .refused
  | accepted flow flow' due phase timers hreq hid hflow haccept hsetup =>
    rw [hopen]
    exact .still (by simp [Event.isClosed])
  | refused flow e event due overdue timers hreq hid hflow haccept hevent =>
    rw [hopen]
    refine .ends [event] ?_ .refused
    rcases hevent with rfl | ⟨phase, rfl⟩ <;> simp [Event.isClosed]

theorem seals_step {s s' : Secc} {acts : List Act} (h : Step s acts s') :
    Seals s.closed (eventsOf acts) s'.closed := by
  cases h with
  | received conn hopen hconn => exact .refl s.closed
  | read hopen hidle h =>
    rw [eventsOf_map_event]
    exact h.seals hopen
  | faulted conn hopen hconn =>
    rw [hopen]
    exact .ends [] (fun e he => (by cases he)) .fatal
  | spoiled hflow => exact .refl s.closed
  | answered response o frame timers howed hflow hsetup => exact .refl s.closed
  | ended response o frame why hopen howed hflow hwhy =>
    rw [hopen]
    exact .ends [] (fun e he => (by cases he)) why

theorem seals_steps {s s' : Secc} {acts : List Act} (h : Steps Step s acts s') :
    Seals s.closed (eventsOf acts) s'.closed := by
  refine invariant_of_steps (a := []) (I := fun evs _ t => Seals s.closed evs t.closed) ?_
    (.refl s.closed) h
  intro evs _ t acts t' hevs hstep
  exact hevs.trans (seals_step hstep)

theorem seals_effect {s s' : Secc} {c : Call} {acts : List Act} (h : Effect s c acts s') :
    Seals s.closed (eventsOf acts) s'.closed := by
  cases h with
  | opened now => exact .refl s.closed
  | polled => exact .refl s.closed
  | taken => exact .refl s.closed
  | ticked now h =>
    rw [eventsOf_map_event]
    cases h with
    | kept timers overdue hflow hdue htimers => exact .refl s.closed
    | timedOut timer timers overdue hopen hflow hdue =>
      rw [hopen]
      exact .ends [] (fun e he => (by cases he)) (.timeout timer)
  | joined sessionId => exact .refl s.closed
  | resumed flow flow' hflow hprotocol => exact .refl s.closed
  | notResumed => exact .refl s.closed
  | driven hc h => exact seals_steps h

theorem seals_emitted (codec : Codec) (config : SeccConfig) (calls : List Call) :
    Seals false (emitted codec config calls) (after codec config calls).closed := by
  refine invariant_of_effect (I := fun evs _ s => Seals false evs s.closed) codec config
    (.refl false) ?_ calls
  intro evs answers s c acts s' h heffect
  exact h.trans (seals_effect heffect)

theorem seals_emits (codec : Codec) (s : Secc) (c : Call) :
    Seals s.closed (s.emits codec c) (s.call codec c).closed := by
  obtain ⟨acts, heffect, hevents, -⟩ := effect_call codec s c
  rw [← hevents]
  exact seals_effect heffect

/-- A closed session says nothing more. -/
theorem emits_of_closed {s : Secc} (codec : Codec) (c : Call) (h : s.closed = true) :
    s.emits codec c = [] ∧ (s.call codec c).closed = true := by
  have hseals := seals_emits codec s c
  rw [h] at hseals
  generalize s.emits codec c = evs, (s.call codec c).closed = b at hseals
  cases hseals
  exact ⟨rfl, rfl⟩

theorem emitted_append_of_closed {codec : Codec} {config : SeccConfig} {calls : List Call}
    (h : (after codec config calls).closed = true) (later : List Call) :
    emitted codec config (calls ++ later) = emitted codec config calls
      ∧ (after codec config (calls ++ later)).closed = true := by
  induction later using List.reverseRecOn with
  | nil =>
    rw [List.append_nil]
    exact ⟨rfl, h⟩
  | append_singleton later c ih =>
    obtain ⟨hemitted, hclosed⟩ := ih
    obtain ⟨hemits, hcall⟩ := emits_of_closed codec c hclosed
    rw [← List.append_assoc, emitted_concat, after_concat, hemits, List.append_nil]
    exact ⟨hemitted, hcall⟩

@[simp] theorem closeFatal_closed (s : Secc) : s.closeFatal.closed = true := by
  unfold closeFatal
  split
  · next h => exact h
  · rfl

theorem closed_of_closeOnError {out : Except SeccError Unit × Secc} {e : SeccError}
    (h : (closeOnError out).1 = .error e) : (closeOnError out).2.closed = true := by
  obtain ⟨result, s⟩ := out
  cases result with
  | error e' => exact closeFatal_closed s
  | ok _ => cases h

theorem handleInput_of_closed {s : Secc} (codec : Codec) (h : s.closed = true) (now : Instant)
    (data : List UInt8) : s.handleInput codec now data = (.ok (), s) := by
  unfold handleInput
  rw [if_pos h]

/-- Input that is turned down has ended the session. -/
theorem closed_of_handleInput_error {codec : Codec} {s : Secc} {now : Instant}
    {data : List UInt8} {e : SeccError} (h : (s.handleInput codec now data).1 = .error e) :
    (s.handleInput codec now data).2.closed = true := by
  unfold handleInput at h ⊢
  split at h
  · cases h
  · next hopen =>
    rw [if_neg hopen]
    split at h
    · exact closed_of_closeOnError h
    · exact closed_of_closeOnError h

theorem Seals.countP_le_one {evs : List Event} {b : Bool} (h : Seals false evs b) :
    evs.countP Event.isClosed ≤ 1 := by
  cases h with
  | still h =>
    rw [List.countP_eq_zero.mpr fun e he => by simp [h e he]]
    exact Nat.zero_le 1
  | ends evs h why =>
    have hnone : evs.countP Event.isClosed = 0 :=
      List.countP_eq_zero.mpr fun e he => by simp [h e he]
    rw [List.countP_append, hnone]
    exact Nat.le_refl 1

theorem Seals.eq_nil_of_closed {before later : List Event} {why : Close} {b : Bool}
    (h : Seals false (before ++ .closed why :: later) b) : later = [] := by
  generalize heq : before ++ .closed why :: later = evs at h
  cases h with
  | still h =>
    have hwhy := h (.closed why) (by simp [← heq])
    cases hwhy
  | ends evs h why' =>
    rcases List.eq_nil_or_concat later with rfl | ⟨mid, e, rfl⟩
    · rfl
    · -- an end before the last event would be among those that are none
      have heq' : (before ++ .closed why :: mid) ++ [e] = evs ++ [.closed why'] := by
        simpa using heq
      obtain ⟨hevs, -⟩ := List.append_inj' heq' rfl
      have hwhy := h (.closed why) (by simp [← hevs])
      cases hwhy

theorem Seals.closed_iff {evs : List Event} {b : Bool} (h : Seals false evs b) :
    b = true ↔ ∃ why, .closed why ∈ evs := by
  cases h with
  | still h =>
    refine ⟨fun hb => (by cases hb), fun ⟨why, hwhy⟩ => ?_⟩
    cases h _ hwhy
  | ends evs h why => exact ⟨fun _ => ⟨why, by simp⟩, fun _ => rfl⟩

/-- A session is closed once, its last event says so, and it stays so. -/
structure ClosesOnce (codec : Codec) (config : SeccConfig) (calls : List Call) : Prop where
  once : (emitted codec config calls).countP Event.isClosed ≤ 1
  last : ∀ before why later, emitted codec config calls = before ++ .closed why :: later →
    later = []
  closed_iff : (after codec config calls).closed = true
    ↔ ∃ why, .closed why ∈ emitted codec config calls
  error_closes : ∀ now data e,
    ((after codec config calls).handleInput codec now data).1 = .error e →
      ((after codec config calls).handleInput codec now data).2.closed = true
  silent : (after codec config calls).closed = true → ∀ later,
    emitted codec config (calls ++ later) = emitted codec config calls
      ∧ (after codec config (calls ++ later)).closed = true
  deaf : (after codec config calls).closed = true → ∀ now data,
    (after codec config calls).handleInput codec now data = (.ok (), after codec config calls)

/-- **A session closes exactly once**, from whichever of its ends it reaches first: one event says
so, it is the last one, and from then on input changes nothing and nothing is said. -/
theorem closes_once (codec : Codec) (config : SeccConfig) (calls : List Call) :
    ClosesOnce codec config calls where
  once := (seals_emitted codec config calls).countP_le_one
  last := by
    intro before why later h
    have hseals := seals_emitted codec config calls
    rw [h] at hseals
    exact hseals.eq_nil_of_closed
  closed_iff := (seals_emitted codec config calls).closed_iff
  error_closes := fun _ _ _ h => closed_of_handleInput_error h
  silent := fun h later => emitted_append_of_closed h later
  deaf := fun h now data => handleInput_of_closed codec h now data

/-! ## What is written after the end

Bytes are written by an answer only, and an answer needs an outstanding request. So a session
that is over and has none writes nothing, and what matters is which ends leave one. -/

/-- The session is over and nothing is left to answer. -/
structure Spent (s : Secc) : Prop where
  closed : s.closed = true
  answered : s.outstanding = none

/-- A session that is over and has nothing left to answer stays so, and writes nothing. -/
theorem Spent.step {s s' : Secc} {acts : List Act} (hs : s.Spent) (h : Step s acts s') :
    s'.Spent ∧ s'.conn.tx = s.conn.tx := by
  have hnever : s.closed ≠ false := by simp [hs.closed]
  cases h with
  | received conn hopen hconn => exact absurd hopen hnever
  | read hopen hidle h => exact absurd hopen hnever
  | faulted conn hopen hconn => exact absurd hopen hnever
  | spoiled hflow => exact ⟨⟨hs.closed, hs.answered⟩, rfl⟩
  | answered response o frame timers howed hflow hsetup =>
    rw [hs.answered] at howed
    cases howed
  | ended response o frame why hopen howed hflow hwhy => exact absurd hopen hnever

theorem Spent.effect {s s' : Secc} {c : Call} {acts : List Act} (hs : s.Spent)
    (h : Effect s c acts s') : s'.Spent ∧ (s'.conn.tx = s.conn.tx ∨ s'.conn.tx = []) := by
  cases h with
  | opened now => exact ⟨⟨hs.closed, hs.answered⟩, .inl rfl⟩
  | polled => exact ⟨⟨hs.closed, hs.answered⟩, .inl rfl⟩
  | taken => exact ⟨⟨hs.closed, hs.answered⟩, .inr rfl⟩
  | ticked now h =>
    cases h with
    | kept timers overdue hflow hdue htimers => exact ⟨⟨hs.closed, hs.answered⟩, .inl rfl⟩
    | timedOut timer timers overdue hopen hflow hdue => exact ⟨⟨rfl, hs.answered⟩, .inl rfl⟩
  | joined sessionId => exact ⟨⟨hs.closed, hs.answered⟩, .inl rfl⟩
  | resumed flow flow' hflow hprotocol => exact ⟨⟨hs.closed, hs.answered⟩, .inl rfl⟩
  | notResumed => exact ⟨hs, .inl rfl⟩
  | driven hc h =>
    have hstart : s.Spent ∧ s.conn.tx = s.conn.tx := ⟨hs, rfl⟩
    have hsteps := h.invariant (I := fun _ t => t.Spent ∧ t.conn.tx = s.conn.tx) (g := [])
      (fun _ t _ t' ht hstep => ⟨(ht.1.step hstep).1, (ht.1.step hstep).2.trans ht.2⟩) hstart
    exact ⟨hsteps.1, .inl hsteps.2⟩

theorem Spent.writes {s : Secc} (hs : s.Spent) (codec : Codec) (c : Call) :
    s.writes codec c = [] := by
  obtain ⟨acts, heffect, -⟩ := effect_call codec s c
  unfold Secc.writes
  rcases (hs.effect heffect).2 with h | h
  · rw [h, List.drop_length]
  · rw [h, List.drop_nil]

/-- Every end but a refusal has left nothing to answer. -/
def EndsClean (evs : List Event) (s : Secc) : Prop :=
  ∀ why, .closed why ∈ evs → why ≠ .refused → s.Spent

theorem Dispatched.endsClean {s s' : Secc} {m : Message} {evs : List Event}
    (h : Dispatched s m evs (.ok (), s')) (hidle : s.outstanding = none) : EndsClean evs s' := by
  intro why hmem hwhy
  cases h with
  | rejected req frame timers hm hflow => exact ⟨rfl, hidle⟩
  | agreed req protocol set flow frame timers hm hflow hnew hsetup => simp at hmem
  | unknown due timers hm hreq hest hid => simp [hwhy] at hmem
  | accepted flow flow' due phase timers hreq hid hflow haccept hsetup => simp at hmem
  | refused flow e event due overdue timers hreq hid hflow haccept hevent =>
    rcases hevent with rfl | ⟨phase, rfl⟩ <;> simp [hwhy] at hmem

theorem endsClean_step {s s' : Secc} {evs : List Event} {acts : List Act}
    (hs : EndsClean evs s) (h : Step s acts s') : EndsClean (evs ++ eventsOf acts) s' := by
  intro why hmem hwhy
  rcases List.mem_append.mp hmem with hmem | hmem
  · exact ((hs why hmem hwhy).step h).1
  cases h with
  | received conn hopen hconn => cases hmem
  | read hopen hidle h =>
    rw [eventsOf_map_event] at hmem
    exact h.endsClean hidle why hmem hwhy
  | faulted conn hopen hconn => exact ⟨rfl, rfl⟩
  | spoiled hflow => cases hmem
  | answered response o frame timers howed hflow hsetup => cases hmem
  | ended response o frame why' hopen howed hflow hwhy' => exact ⟨rfl, rfl⟩

/-- The clock ends the session over a request that is still to be answered. -/
def CutsOff (s : Secc) : Call → Prop
  | .handleTimeout now =>
      s.closed = false ∧ s.outstanding.isSome = true ∧ ∃ timer, s.Overrun now timer
  | _ => False

instance (s : Secc) (now : Instant) (timer : Timer) : Decidable (s.Overrun now timer) :=
  inferInstanceAs (Decidable (_ ∧ _))

instance (s : Secc) : DecidablePred s.CutsOff
  | .handleTimeout now =>
      have : Decidable (∃ timer, s.Overrun now timer) :=
        decidable_of_iff (∃ timer ∈ Timer.all, s.Overrun now timer)
          ⟨fun ⟨timer, _, h⟩ => ⟨timer, h⟩, fun ⟨timer, h⟩ => ⟨timer, timer.mem_all, h⟩⟩
      inferInstanceAs (Decidable (_ ∧ _ ∧ _))
  | .opened _ | .handleInput _ _ | .respond _ _ | .joinSession _ | .resume _ _ | .pollEvent
  | .takeTransmit => isFalse id

/-- A call that cuts nothing off keeps it so: what it ends has left nothing to answer. -/
theorem endsClean_effect {s s' : Secc} {c : Call} {evs : List Event} {acts : List Act}
    (hs : EndsClean evs s) (hc : ¬ s.CutsOff c) (h : Effect s c acts s') :
    EndsClean (evs ++ eventsOf acts) s' := by
  intro why hmem hwhy
  rcases List.mem_append.mp hmem with hold | hnew
  · exact ((hs why hold hwhy).effect h).1
  cases h with
  | opened now => cases hnew
  | polled => cases hnew
  | taken => cases hnew
  | ticked now h =>
    rw [eventsOf_map_event] at hnew
    cases h with
    | kept timers overdue hflow hdue htimers => cases hnew
    | timedOut timer timers overdue hopen hflow hdue =>
      refine ⟨rfl, ?_⟩
      -- `handle_timeout` keeps the outstanding request, so only `hc` rules one out
      cases howed : s.outstanding with
      | none => rfl
      | some o => exact absurd ⟨hopen, by simp [howed], timer, hdue⟩ hc
  | joined sessionId => cases hnew
  | resumed flow flow' hflow hprotocol => cases hnew
  | notResumed => cases hnew
  | driven hdrives h =>
    have hclean := invariant_of_steps (a := []) (I := fun evs _ t => EndsClean evs t)
      (fun _ _ _ _ _ ht hstep => endsClean_step ht hstep) hs h
    exact hclean why hmem hwhy

/-- Once the end of the session has been reported, unless it is a refusal, no later call adds a
byte to what is written. -/
def SilentAfterEnd (codec : Codec) (config : SeccConfig) (calls : List Call) : Prop :=
  Along (fun before c => ∀ why, .closed why ∈ emitted codec config before → why ≠ .refused →
    (after codec config before).writes codec c = []) calls

/-- **Nothing is written after the end**, as long as no timer ends the session over a request that
is still to be answered. -/
theorem silent_after_end {codec : Codec} {config : SeccConfig} {calls : List Call}
    (h : Along (fun before c => ¬ (after codec config before).CutsOff c) calls) :
    SilentAfterEnd codec config calls := by
  intro before c later hcalls why hmem hwhy
  rw [hcalls] at h
  have hclean : EndsClean (emitted codec config before) (after codec config before) := by
    refine h.of_append.induction (motive := fun calls =>
      EndsClean (emitted codec config calls) (after codec config calls)) ?_ ?_
    · intro why hmem
      cases hmem
    · intro xs a hxs ha
      obtain ⟨acts, heffect, hevents, -⟩ := effect_call codec (after codec config xs) a
      have hnext := endsClean_effect hxs ha heffect
      rw [hevents] at hnext
      rwa [emitted_concat, after_concat]
  exact (hclean why hmem hwhy).writes codec c

/-- The station of the recorded session. -/
def goldenConfig : SeccConfig :=
  { SeccConfig.default with sessionId := Message.Golden.sessionId }

/-- The handshake of the recorded session, and its first request. -/
def goldenSetup : List Call :=
  [.opened (.fromMillis 0),
   .handleInput (.fromMillis 100)
     (Message.Golden.frame .exiEncodedV2gMessage Message.Golden.reqIso2),
   .handleInput (.fromMillis 200)
     (Message.Golden.frame .exiEncodedV2gMessage Message.Golden.sessionSetupReq)]

/-- The request answered, the session may run out of time: the answer cannot go out again. -/
theorem silent_after_end_answered :
    SilentAfterEnd Message.Golden.codec goldenConfig
        (goldenSetup ++ [.respond (.fromMillis 300) Message.Golden.sessionSetup,
          .handleTimeout (.fromMillis 60300),
          .respond (.fromMillis 60301) Message.Golden.sessionSetup])
      ∧ Event.closed (.timeout .sequence) ∈ emitted Message.Golden.codec goldenConfig
          (goldenSetup ++ [.respond (.fromMillis 300) Message.Golden.sessionSetup,
            .handleTimeout (.fromMillis 60300)]) :=
  ⟨silent_after_end (by decide +kernel), by decide +kernel⟩

/-- The request not yet answered, the session runs out of time, and the answer still goes out. -/
theorem not_silent_after_end :
    ¬ SilentAfterEnd Message.Golden.codec goldenConfig
        (goldenSetup ++ [.handleTimeout (.fromMillis 60200),
          .respond (.fromMillis 60201) Message.Golden.sessionSetup]) := by
  intro h
  have hwrites := h (goldenSetup ++ [.handleTimeout (.fromMillis 60200)])
    (.respond (.fromMillis 60201) Message.Golden.sessionSetup) [] rfl (.timeout .sequence)
    (by decide +kernel) (by decide)
  exact absurd hwrites (by decide +kernel)

end Iso15118.Secc
