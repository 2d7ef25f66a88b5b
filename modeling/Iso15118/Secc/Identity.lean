import Iso15118.Secc.Effect

/-!
# Whose session it is

Once a `SessionSetupReq` has been accepted, every request has to carry the id the station assigned,
and the all-zero id is nobody's. **`session_id_enforced`**: what gets past that check carries the
id, whatever the application makes of the session in between; what does not is refused before the
flow sees it, and ends the session.
-/

namespace Iso15118.Secc

open Iso15118.Lib Iso15118.Session
open Iso15118.Message (Codec)

/-- A `SessionSetupReq` has been accepted. -/
def SetUp (evs : List Event) : Prop := ∃ m, .request m ∈ evs ∧ m.name = "SessionSetupReq"

/-- The message carries the id of the station, and that is one. -/
def Carries (config : SeccConfig) (m : Message) : Prop :=
  m.sessionId = some config.sessionId ∧ config.sessionId ≠ SessionId.none

/-- The event hands over `m` as a request of this session: to be answered, or overdue. -/
def Event.Passes (e : Event) (m : Message) : Prop :=
  e = .request m ∨ ∃ code phase, e = .overdue m code phase

theorem carriesTheSessionId_iff {s : Secc} {m : Message} :
    s.carriesTheSessionId m = true ↔ Carries s.config m := by
  unfold carriesTheSessionId Carries SessionId.isNone
  rw [Bool.and_eq_true, Bool.not_eq_true', decide_eq_false_iff_not, decide_eq_true_iff]
  exact and_comm

theorem setUp_append (xs ys : List Event) : SetUp (xs ++ ys) ↔ SetUp xs ∨ SetUp ys := by
  constructor
  · rintro ⟨m, hmem, hname⟩
    rcases List.mem_append.mp hmem with h | h
    · exact .inl ⟨m, h, hname⟩
    · exact .inr ⟨m, h, hname⟩
  · rintro (⟨m, hmem, hname⟩ | ⟨m, hmem, hname⟩)
    · exact ⟨m, List.mem_append_left _ hmem, hname⟩
    · exact ⟨m, List.mem_append_right _ hmem, hname⟩

/-! ## What is handed over

In an established session every way to hand a request over passes the check on its id. The
station remembers that the session is established, and a run that a `SessionSetupReq` was
accepted; the two agree. -/

/-- What a call has emitted so far, against the state it was made in and the events before it. -/
structure Identified (before : List Event) (config : SeccConfig) (log : List Event) (s : Secc) :
    Prop where
  sameConfig : s.config = config
  established : s.established = true ↔ SetUp (before ++ log)
  carried : Along (fun pre e => SetUp (before ++ pre) → ∀ m, e.Passes m → Carries config m) log

variable {before log : List Event} {config : SeccConfig} {s s' : Secc}

/-- Events that hand nothing over, and a session as established as it was. -/
theorem Identified.keep (hs : Identified before config log s) {evs : List Event}
    (hconfig : s'.config = s.config) (hest : s'.established = s.established)
    (hevs : ∀ e ∈ evs, ∀ m, ¬ e.Passes m) : Identified before config (log ++ evs) s' := by
  have hsetUp : ¬ SetUp evs := fun ⟨m, hmem, _⟩ => hevs _ hmem m (.inl rfl)
  refine ⟨hconfig.trans hs.sameConfig, ?_, (along_append ..).mpr ⟨hs.carried, ?_⟩⟩
  · rw [hest, hs.established, ← List.append_assoc, setUp_append (before ++ log)]
    exact ⟨.inl, fun h => h.resolve_right hsetUp⟩
  · intro pre e post heq _ m hpasses
    exact absurd hpasses (hevs e (by simp [heq]) m)

/-- A message let through in an established session has passed the check. -/
theorem Identified.carries_of_check (hs : Identified before config log s) {m : Message}
    (hid : s.established = true → s.carriesTheSessionId m = true) (hsetUp : SetUp (before ++ log)) :
    Carries config m := by
  rw [← hs.sameConfig]
  exact carriesTheSessionId_iff.mp (hid (hs.established.mpr hsetUp))

/-- A message that is handed over in an established session carries the id, for it passed the check.
-/
theorem Identified.dispatched (hs : Identified before config log s) {m : Message}
    {evs : List Event} (h : Dispatched s m evs (.ok (), s')) :
    Identified before config (log ++ evs) s' := by
  cases h with
  | rejected req frame timers hm hflow => exact hs.keep rfl rfl (by simp [Event.Passes])
  | agreed req protocol set flow frame timers hm hflow hnew hsetup =>
    exact hs.keep rfl rfl (by simp [Event.Passes])
  | unknown due timers hm hreq hest hid => exact hs.keep rfl rfl (by simp [Event.Passes])
  | accepted flow flow' due phase timers hreq hid hflow haccept hsetup =>
    refine ⟨hs.sameConfig, ?_, (along_append ..).mpr ⟨hs.carried, ?_⟩⟩
    · have hnew : SetUp [.request m] ↔ m.name = "SessionSetupReq" := by simp [SetUp]
      show (s.established || decide (m.name = "SessionSetupReq")) = true ↔ _
      rw [Bool.or_eq_true, decide_eq_true_iff, hs.established, ← List.append_assoc,
        setUp_append (before ++ log), hnew]
    · refine (along_cons ..).mpr ⟨fun hsetUp m' hpasses => ?_, along_nil⟩
      obtain rfl : m = m' := by simpa [Event.Passes] using hpasses
      rw [List.append_nil] at hsetUp
      exact hs.carries_of_check hid hsetUp
  | refused flow e event due overdue timers hreq hid hflow haccept hevent =>
    refine ⟨hs.sameConfig, ?_, (along_append ..).mpr ⟨hs.carried, ?_⟩⟩
    · have hnone : ¬ SetUp [event, .closed .refused] := by
        rcases hevent with rfl | ⟨phase, rfl⟩ <;> simp [SetUp]
      show s.established = true ↔ _
      rw [hs.established, ← List.append_assoc, setUp_append (before ++ log)]
      exact ⟨.inl, fun h => h.resolve_right hnone⟩
    · -- an overdue request is handed over too, and has passed the same check
      refine (along_cons ..).mpr ⟨fun hsetUp m' hpasses => ?_, ?_⟩
      · rcases hevent with rfl | ⟨phase, rfl⟩
        · simp [Event.Passes] at hpasses
        · obtain rfl : m = m' := by simpa [Event.Passes] using hpasses
          rw [List.append_nil] at hsetUp
          exact hs.carries_of_check hid hsetUp
      · exact (along_cons ..).mpr
          ⟨fun _ m' hpasses => by simp [Event.Passes] at hpasses, along_nil⟩

theorem Identified.step (hs : Identified before config log s) {acts : List Act}
    (h : Step s acts s') : Identified before config (log ++ eventsOf acts) s' := by
  cases h with
  | received conn hopen hconn => exact hs.keep rfl rfl (by simp)
  | read hopen hidle h =>
    rw [eventsOf_map_event]
    exact hs.dispatched h
  | faulted conn hopen hconn => exact hs.keep rfl rfl (by simp [Event.Passes])
  | spoiled hflow => exact hs.keep rfl rfl (by simp)
  | answered response o frame timers howed hflow hsetup => exact hs.keep rfl rfl (by simp)
  | ended response o frame why hopen howed hflow hwhy =>
    exact hs.keep rfl rfl (by simp [Event.Passes])

/-- What one call does, from a state that is established exactly when a `SessionSetupReq` has been
accepted: it hands over requests that carry the id, and it keeps that. -/
theorem identified_effect {c : Call} {acts : List Act}
    (hs : s.established = true ↔ SetUp before) (h : Effect s c acts s') :
    (s'.established = true ↔ SetUp (before ++ eventsOf acts))
      ∧ Along (fun pre e => SetUp (before ++ pre) → ∀ m, e.Passes m → Carries s.config m)
          (eventsOf acts) := by
  -- the id is fixed for the length of a call: only the application replaces it, between two
  have hstart : Identified before s.config [] s :=
    ⟨rfl, by rwa [List.append_nil], along_nil⟩
  have hquiet : ∀ {evs : List Event}, (∀ e ∈ evs, ∀ m, ¬ e.Passes m) →
      (s.established = true ↔ SetUp (before ++ evs))
        ∧ Along (fun pre e => SetUp (before ++ pre) → ∀ m, e.Passes m → Carries s.config m)
            evs := by
    intro evs hevs
    have hkeep : Identified before s.config ([] ++ evs) s := hstart.keep rfl rfl hevs
    exact ⟨hkeep.established, hkeep.carried⟩
  cases h with
  | opened now => exact hquiet (by simp)
  | polled => exact hquiet (by simp)
  | taken => exact hquiet (by simp)
  | ticked now h =>
    rw [eventsOf_map_event]
    cases h with
    | kept timers overdue hflow hdue htimers => exact hquiet (by simp)
    | timedOut timer timers overdue hopen hflow hdue => exact hquiet (by simp [Event.Passes])
  | joined sessionId => exact hquiet (by simp)
  | resumed flow flow' hflow hprotocol => exact hquiet (by simp)
  | notResumed => exact hquiet (by simp)
  | driven hdrives h =>
    have hend := invariant_of_steps (a := []) (I := fun log _ t => Identified before s.config log t)
      (fun _ _ _ _ _ ht hstep => ht.step hstep) hstart h
    exact ⟨hend.established, hend.carried⟩

theorem established_iff (codec : Codec) (config : SeccConfig) (calls : List Call) :
    (after codec config calls).established = true ↔ SetUp (emitted codec config calls) := by
  refine invariant_of_effect (I := fun evs _ s => s.established = true ↔ SetUp evs) codec config
    ?_ ?_ calls
  · exact ⟨fun h => (by cases h), fun ⟨m, h, _⟩ => (by cases h)⟩
  · intro evs answers s c acts s' hs h
    exact (identified_effect hs h).1

/-! ## What is refused

The check on the id comes before the flow is asked. A request that fails it is refused under its
own code, and the session ends with the refusal. -/

/-- An established session has a flow, and the connection reads in the flow's generation. -/
structure Synced (s : Secc) : Prop where
  settled : s.established = true → s.flow.isSome = true
  protocol : ∀ flow, s.flow = some flow → s.conn.protocol = some flow.protocol

theorem SameOrFailed.isSome_eq {flow flow' : Option Flow} (h : SameOrFailed flow flow') :
    flow'.isSome = flow.isSome := by
  rcases h with rfl | rfl
  · rfl
  · exact Option.isSome_map

theorem SameOrFailed.protocol {flow flow' : Option Flow} (h : SameOrFailed flow flow') {f' : Flow}
    (hf' : flow' = some f') : ∃ f, flow = some f ∧ f'.protocol = f.protocol := by
  rcases h with rfl | rfl
  · exact ⟨f', hf', rfl⟩
  · obtain ⟨f, hf, rfl⟩ := Option.map_eq_some_iff.mp hf'
    exact ⟨f, hf, f.protocol_recordFailure⟩

theorem Synced.keep (hs : Synced s) (hest : s'.established = s.established)
    (hprotocol : s'.conn.protocol = s.conn.protocol) (hflow : SameOrFailed s.flow s'.flow) :
    Synced s' := by
  refine ⟨fun h => ?_, fun f' hf' => ?_⟩
  · rw [hflow.isSome_eq]
    exact hs.settled (hest.symm.trans h)
  · obtain ⟨f, hf, hsame⟩ := hflow.protocol hf'
    rw [hprotocol, hs.protocol f hf, hsame]

theorem Synced.dispatched (hs : Synced s) {m : Message} {evs : List Event}
    (h : Dispatched s m evs (.ok (), s')) : Synced s' := by
  cases h with
  | rejected req frame timers hm hflow => exact hs.keep rfl rfl (.inl rfl)
  | agreed req protocol set flow frame timers hm hflow hnew hsetup =>
    refine ⟨fun _ => rfl, fun f hf => ?_⟩
    cases hf
    exact congrArg some (Flow.protocol_of_new hnew).symm
  | unknown due timers hm hreq hest hid => exact hs.keep rfl rfl (.inl rfl)
  | accepted flow flow' due phase timers hreq hid hflow haccept hsetup =>
    refine ⟨fun _ => rfl, fun f hf => ?_⟩
    cases hf
    rw [Flow.protocol_of_accept haccept]
    exact hs.protocol flow hflow
  | refused flow e event due overdue timers hreq hid hflow haccept hevent =>
    exact hs.keep rfl rfl (.inl rfl)

theorem Synced.step (hs : Synced s) {acts : List Act} (h : Step s acts s') : Synced s' := by
  cases h with
  | received conn hopen hconn => exact hs.keep rfl hconn.protocol (.inl rfl)
  | read hopen hidle h => exact hs.dispatched h
  | faulted conn hopen hconn => exact hs.keep rfl hconn.protocol (.inl rfl)
  | spoiled hflow => exact hs.keep rfl rfl hflow
  | answered response o frame timers howed hflow hsetup => exact hs.keep rfl rfl hflow
  | ended response o frame why hopen howed hflow hwhy => exact hs.keep rfl rfl hflow

theorem Synced.effect (hs : Synced s) {c : Call} {acts : List Act} (h : Effect s c acts s') :
    Synced s' := by
  cases h with
  | opened now => exact hs.keep rfl rfl (.inl rfl)
  | polled => exact hs.keep rfl rfl (.inl rfl)
  | taken => exact hs.keep rfl rfl (.inl rfl)
  | ticked now h =>
    cases h with
    | kept timers overdue hflow hdue htimers => exact hs.keep rfl rfl hflow
    | timedOut timer timers overdue hopen hflow hdue => exact hs.keep rfl rfl hflow
  | joined sessionId => exact hs.keep rfl rfl (.inl rfl)
  | resumed flow flow' hflow hprotocol =>
    refine ⟨fun _ => rfl, fun f hf => ?_⟩
    cases hf
    rw [hprotocol]
    exact hs.protocol flow hflow
  | notResumed => exact hs
  | driven hdrives h =>
    exact h.invariant (g := []) (I := fun _ t => Synced t) (fun _ _ _ _ ht hstep => ht.step hstep)
      hs

theorem synced_after (codec : Codec) (config : SeccConfig) (calls : List Call) :
    Synced (after codec config calls) := by
  refine invariant_of_effect (I := fun _ _ s => Synced s) codec config ?_ ?_ calls
  · exact ⟨fun h => (by cases h), fun _ h => (by cases h)⟩
  · intro evs answers s c acts s' hs h
    exact hs.effect h

/-- What is read is of the generation the session has agreed on. -/
theorem Reads.generation {codec : Codec} {m : Message} {conn : Connection}
    (h : Reads codec s m conn) : m.generation = s.conn.protocol := by
  have hread : (s.conn.nextMessage codec).1 = .ok (some m) := by rw [h.next]
  obtain ⟨t, payload, hdecode⟩ := Connection.exists_decode_of_nextMessage hread
  exact Message.generation_of_decode hdecode

/-- In an established session the id is looked at before anything else is. -/
theorem dispatch_unknown (codec : Codec) (now : Instant) {m : Message} (hopen : s.closed = false)
    (hm : ∀ req, m ≠ .appProtocolReq req) (hreq : m.isRequest = true)
    (hest : s.established = true) (hid : ¬ Carries s.config m) :
    ∃ due, s.dispatch codec now m
      = (.ok (),
        { s with
          timers := s.timers.disarmAll
          outstanding := some ⟨m.name, true, due⟩
          closed := true
          events := s.events ++ [.refused m (unknownSessionCode s.conn.protocol) .unknownSession,
            .closed .refused] }) := by
  have hcheck : ¬ s.carriesTheSessionId m = true := fun h => hid (carriesTheSessionId_iff.mp h)
  unfold dispatch
  dsimp only
  split
  · next req => exact absurd rfl (hm req)
  · rw [if_neg (by simp [hreq]), if_pos ⟨hest, by exact hcheck⟩,
      closeAfterRefusal_of_open (by exact hopen)]
    simp only [emit, await, List.append_assoc]
    exact ⟨_, rfl⟩

/-- A request of an established session that does not carry its id is refused as nobody's. -/
theorem call_unknown {codec : Codec} {c : Call} {t : Secc} {now : Instant} {m : Message}
    {conn : Connection} (hs : Synced s) (hest : s.established = true)
    (hreading : s.reading codec c = some (t, now)) (hread : Reads codec t m conn)
    (hreq : m.isRequest = true) (hid : ¬ Carries s.config m) :
    s.emits codec c
        = [.refused m (unknownSessionCode s.conn.protocol) .unknownSession, .closed .refused]
      ∧ (s.call codec c).flow = t.flow ∧ (s.call codec c).closed = true := by
  obtain ⟨conn', flow, outstanding, timers, rfl, hprotocol, hflow⟩ :=
    reading_eq hreading hread.isOpen
  have hsome : flow.isSome = true := by
    rw [hflow.isSome_eq]
    exact hs.settled hest
  obtain ⟨f, hf⟩ := Option.isSome_iff_exists.mp hsome
  -- a session with a flow reads its own generation, and the handshake is of none
  have hgeneration : m.generation = some f.protocol := by
    obtain ⟨f₀, hf₀, hsame⟩ := hflow.protocol hf
    rw [hread.generation, hprotocol, hs.protocol f₀ hf₀, hsame]
  have hm : ∀ req, m ≠ .appProtocolReq req := by
    rintro req rfl
    cases hgeneration
  have hconn : conn.protocol = s.conn.protocol := by
    have hsame := conn'.sameButInput_nextMessage codec
    rw [show conn'.nextMessage codec = _ from hread.next] at hsame
    exact hsame.protocol.trans hprotocol
  obtain ⟨due, hdispatch⟩ := dispatch_unknown codec now
    (s := { s with conn := conn, flow := flow, outstanding := outstanding, timers := timers })
    hread.isOpen hm hreq hest hid
  -- the message is the only one the call reads
  have hcall := call_of_reading hreading
  rw [pump_of_reads now hread hsome, hdispatch] at hcall
  refine ⟨emits_eq ?_, ?_, ?_⟩
  · rw [hcall, ← hconn]
    rfl
  · rw [hcall]
    rfl
  · rw [hcall]
    rfl

/-- Every request of an established session is this session's, or is refused. -/
structure SessionIdEnforced (codec : Codec) (config : SeccConfig) (calls : List Call) (c : Call) :
    Prop where
  carried : Along (fun pre e => SetUp (emitted codec config calls ++ pre) →
    ∀ m, e.Passes m → Carries (after codec config calls).config m)
    ((after codec config calls).emits codec c)
  refused : SetUp (emitted codec config calls) → ∀ t now m conn,
    (after codec config calls).reading codec c = some (t, now) → Reads codec t m conn →
    m.isRequest = true → ¬ Carries (after codec config calls).config m →
      (after codec config calls).emits codec c
          = [.refused m (unknownSessionCode (after codec config calls).conn.protocol)
              .unknownSession, .closed .refused]
        ∧ ((after codec config calls).call codec c).flow = t.flow
        ∧ ((after codec config calls).call codec c).closed = true

/-- **The session id is enforced**: from the `SessionSetupReq` on, every request handed over to be
answered or reported overdue carries the id configured when it was read, which is not the all-zero
one; any other request is refused as nobody's, the flow does not see it, and the session is over. -/
theorem session_id_enforced (codec : Codec) (config : SeccConfig) (calls : List Call) (c : Call) :
    SessionIdEnforced codec config calls c where
  carried := by
    obtain ⟨acts, heffect, hevents, -⟩ := effect_call codec (after codec config calls) c
    have h := identified_effect (established_iff codec config calls) heffect
    rw [hevents] at h
    exact h.2
  refused := fun hsetUp _ _ _ _ hreading hread hreq hid =>
    call_unknown (synced_after codec config calls) ((established_iff codec config calls).mpr hsetUp)
      hreading hread hreq hid

end Iso15118.Secc
