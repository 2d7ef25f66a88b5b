import Iso15118.Lib.Alarm
import Iso15118.Session.Alarm
import Iso15118.Secc.Pace

/-!
# A vehicle that falls silent

"The sequence timer bounds the wait", says `Secc::respond`. It is one of four timers, it is started
by what is read and by what is answered, and the loop budget beside it does not end the session. So
there is an invariant to it: an open station past the handshake has its sequence timer running, and
one before it the setup timer. From that, **`silence_ends`**: if nothing more is heard, waking the
station when it asks to be woken ends the session, at the latest a timeout after the last message it
read or the last answer it took.

The invariant (`Watched`) is carried along the run together with the call that made it true: the
deadline of the sequence timer is one timeout after the last call that spoke (`HeardAt`), and that
of the setup timer after the transport was last opened (`OpenedAt`). A call that says nothing leaves
the deadline alone, and one that speaks becomes the call in question. The end then needs only the
clock: whoever is woken at the earliest deadline uses up a timer, and among four of them is the one
that ends the session.
-/

namespace Iso15118.Secc

open Iso15118.Lib Iso15118.Session
open Iso15118.Message (Codec Outcome)

/-- `Secc::poll_timeout`. -/
def pollTimeout (s : Secc) : Option Instant := s.timers.nextDeadline

/-! ## The clock

A reading handles everything that is due, so that afterwards every deadline lies ahead. Being
woken at a deadline uses up a timer, and there are four. -/

/-- Once the clock has been read, nothing that is due is left. -/
theorem lt_deadline_handleTimeout (s : Secc) (now : Instant) {timer : Timer} {d : Instant}
    (h : (s.handleTimeout now).timers.deadline timer = some d) : now < d := by
  fun_induction handleTimeout s now with
  | case1 s timers hexpired =>
    rcases s.timers.expired_cases now with ⟨-, hdue⟩ | ⟨timer', d', h', -⟩
    · exact UInt64.not_le.mp (hdue timer d h)
    · rw [h'] at hexpired
      cases hexpired
  | case2 s timer' timers hexpired ih => exact ih h

theorem running_handleTimeout_le (s : Secc) (now : Instant) :
    (s.handleTimeout now).timers.running ≤ s.timers.running := by
  fun_induction handleTimeout s now with
  | case1 s timers hexpired => exact Nat.le_refl _
  | case2 s timer timers hexpired ih =>
    rcases s.timers.expired_cases now with ⟨h', -⟩ | ⟨timer', d', h', hd, -⟩
    · rw [h'] at hexpired
      cases hexpired
    · rw [h'] at hexpired
      cases hexpired
      have hless := Timers.running_disarm_lt hd
      have hexpire := running_expire_le { s with timers := s.timers.disarm timer } timer
      exact Nat.le_trans ih (Nat.le_trans hexpire (Nat.le_of_lt hless))

/-- An alarm uses up a timer. -/
theorem running_handleTimeout_lt {s : Secc} {d : Instant} (h : s.pollTimeout = some d) :
    (s.handleTimeout d).timers.running < s.timers.running := by
  obtain ⟨timer, d', hexpired, hd⟩ := Timers.expired_of_nextDeadline h
  rw [handleTimeout]
  split
  · next hnone =>
    rw [hexpired] at hnone
    cases hnone
  · next hsome =>
    rw [hexpired] at hsome
    cases hsome
    have hless := Timers.running_disarm_lt hd
    have hexpire := running_expire_le { s with timers := s.timers.disarm timer } timer
    exact Nat.lt_of_le_of_lt (running_handleTimeout_le _ d) (Nat.lt_of_le_of_lt hexpire hless)

/-- A timer that ends the session does so when it is due. -/
theorem closed_of_overrun {s : Secc} {now : Instant} {timer : Timer} (hopen : s.closed = false)
    (h : s.Overrun now timer) : (s.handleTimeout now).closed = true := by
  obtain ⟨evs, hexpired⟩ := expired_handleTimeout s now
  generalize s.handleTimeout now = out at hexpired
  cases hexpired with
  | kept timers overdue hflow hdue htimers => exact absurd h (hdue hopen timer)
  | timedOut timer' timers overdue hopen' hflow hdue => rfl

/-! ## What a call does to the wait

`Watch` keeps what a wait depends on, and each function of the engine is followed for that alone. -/

/-- What of a station its waiting depends on. -/
structure Watch where
  closed : Bool
  met : Bool
  sequence : Option Instant
  setup : Option Instant

def watch (s : Secc) : Watch where
  closed := s.closed
  met := s.flow.isSome
  sequence := s.timers.deadline .sequence
  setup := s.timers.deadline .communicationSetup

/-- The next message is waited for until `due`, or the session is over. -/
def Watch.Waits (due : Instant) (w w' : Watch) : Prop :=
  w'.closed = true
    ∨ w'.closed = w.closed ∧ w'.sequence = some due
      ∧ (w'.met = true ∨ w'.met = w.met ∧ w'.setup = w.setup)

theorem Watch.Waits.trans {due : Instant} {w w' w'' : Watch} (h : Waits due w w')
    (h' : Waits due w' w'') : Waits due w w'' := by
  rcases h' with hclosed' | ⟨hclosed', hsequence', hmet'⟩
  · exact .inl hclosed'
  · rcases h with hclosed | ⟨hclosed, -, hmet⟩
    · exact .inl (hclosed'.trans hclosed)
    · refine .inr ⟨hclosed'.trans hclosed, hsequence', ?_⟩
      rcases hmet' with hmet' | ⟨hmet', hsetup'⟩
      · exact .inl hmet'
      · rcases hmet with hmet | ⟨hmet, hsetup⟩
        · exact .inl (hmet'.trans hmet)
        · exact .inr ⟨hmet'.trans hmet, hsetup'.trans hsetup⟩

/-- What reading does to that: nothing if there is no message, and with a message the wait starts
anew, and the application is told. -/
inductive Heard (due : Instant) (s : Secc) : Secc → Prop where
  | same {s' : Secc} (hwatch : s'.watch = s.watch) (hevents : s'.events = s.events) : Heard due s s'
  | spoke {s' : Secc} (h : Watch.Waits due s.watch s'.watch)
      (hevents : s'.closed = false → s.events.length < s'.events.length) : Heard due s s'

theorem Heard.ended {due : Instant} {s s' : Secc} (h : s'.closed = true) : Heard due s s' := by
  refine .spoke (.inl h) fun hopen => ?_
  rw [h] at hopen
  cases hopen

/-- Two readings in a row are one. -/
theorem Heard.trans {due : Instant} {s s' s'' : Secc} (h : Heard due s s')
    (h' : Heard due s' s'') : Heard due s s'' := by
  cases h with
  | same hwatch hevents =>
    cases h' with
    | same hwatch' hevents' => exact .same (hwatch'.trans hwatch) (hevents'.trans hevents)
    | spoke hwaits hmore => exact .spoke (hwatch ▸ hwaits) (hevents ▸ hmore)
  | spoke hwaits hmore =>
    cases h' with
    | same hwatch' hevents' =>
      have hclosed : s''.closed = s'.closed := congrArg Watch.closed hwatch'
      refine .spoke (hwatch' ▸ hwaits) fun hopen => ?_
      rw [hevents']
      exact hmore (hclosed.symm.trans hopen)
    | spoke hwaits' hmore' =>
      refine .spoke (hwaits.trans hwaits') fun hopen => ?_
      rcases hwaits' with hclosed | ⟨hclosed, -⟩
      · rw [show s''.closed = true from hclosed] at hopen
        cases hopen
      · have hopen' : s'.closed = false := (show s''.closed = s'.closed from hclosed) ▸ hopen
        exact Nat.lt_trans (hmore hopen') (hmore' hopen)

variable {s s' : Secc} {due : Instant} {w : Watch}

theorem closed_close (s : Secc) (why : Close) : (s.close why).closed = true := by
  unfold close
  split
  · assumption
  · rfl

theorem closed_closeFatal (s : Secc) : s.closeFatal.closed = true := by
  unfold closeFatal
  split
  · assumption
  · rfl

theorem closed_closeAfterRefusal (s : Secc) : s.closeAfterRefusal.closed = true := by
  unfold closeAfterRefusal
  split
  · assumption
  · rfl

theorem config_close (s : Secc) (why : Close) : (s.close why).config = s.config := by
  unfold close
  split <;> rfl

/-- The handshake leaves the station met, or gone. -/
theorem handshake_watch (codec : Codec) {s : Secc} (req : AppProtocol.Req) :
    (∃ e, (s.handshake codec req).1 = .error e) ∨ (s.handshake codec req).2.closed = true
      ∨ (s.handshake codec req).2.closed = s.closed
        ∧ (s.handshake codec req).2.timers.deadline .sequence = s.timers.deadline .sequence
        ∧ (s.handshake codec req).2.flow.isSome = true
        ∧ s.events.length < (s.handshake codec req).2.events.length := by
  unfold handshake
  split
  · exact .inl ⟨_, rfl⟩
  · dsimp only
    split
    · split
      · exact .inl ⟨_, rfl⟩
      · exact .inr (.inl (closed_close _ _))
    · split
      · exact .inl ⟨_, rfl⟩
      · refine .inr (.inr ⟨rfl, Timers.deadline_disarm_of_ne (by decide), rfl, ?_⟩)
        simp [emit]

/-- **What a message does to the wait.** It starts the sequence timer, unless it is a fault or the
end. -/
theorem heard_dispatch (codec : Codec) (s : Secc) (now : Instant) (m : Message) :
    (∃ e, (s.dispatch codec now m).1 = .error e)
      ∨ Heard (now.saturatingAdd s.config.sequenceTimeout) s (s.dispatch codec now m).2 := by
  unfold dispatch
  dsimp only
  split
  · next req =>
    rcases handshake_watch codec
      (s := { s with timers := s.timers.arm .sequence now s.config.sequenceTimeout }) req with
      herror | hclosed | ⟨hclosed, hsequence, hmet, hevents⟩
    · exact .inl herror
    · exact .inr (.ended hclosed)
    · refine .inr (.spoke (.inr ⟨hclosed, ?_, .inl hmet⟩) fun _ => hevents)
      exact hsequence.trans (Timers.deadline_arm_self ..)
  · split
    -- not a request: a fault, which closes
    · exact .inl ⟨_, rfl⟩
    · split
      · exact .inr (.ended (closed_closeAfterRefusal _))
      · split
        · exact .inl ⟨_, rfl⟩
        · next flow hflow =>
          split
          -- accepted: the phase is entered, and the timer is the one just armed
          · right
            obtain ⟨phase, timers, henter, htimers⟩ := enterPhase_eq
              { s with
                timers := s.timers.arm .sequence now s.config.sequenceTimeout
                flow := some (flow.accept m).2
                established := s.established || m.name = "SessionSetupReq" } now
            rw [henter]
            refine .spoke (.inr ⟨rfl, ?_, .inl rfl⟩) fun _ => ?_
            · exact (htimers .sequence (by decide)).trans (Timers.deadline_arm_self ..)
            · simp [emit, await]
          -- refused: the session closes
          · right
            refine .ended ?_
            show (refuse _ now m _).closed = true
            unfold refuse
            dsimp only
            split
            · exact closed_closeAfterRefusal _
            · exact closed_closeAfterRefusal _
          · exact .inl ⟨_, rfl⟩

theorem config_dispatch (codec : Codec) {s s' : Secc} {now : Instant} {m : Message}
    (hopen : s.closed = false) (h : s.dispatch codec now m = (.ok (), s')) :
    s'.config = s.config := by
  obtain ⟨evs, hdispatched⟩ := dispatched_dispatch codec now m hopen
  rw [h] at hdispatched
  cases hdispatched <;> rfl

/-- By induction on the frames: each is heard at the same instant. -/
theorem heard_pump (codec : Codec) (s : Secc) (now : Instant) :
    Heard (now.saturatingAdd s.config.sequenceTimeout) s
      (closeOnError (s.pump codec now)).2 := by
  fun_induction pump codec s now with
  | case1 s hrest => exact .same rfl rfl
  | case2 s hrest e conn hnext => exact .ended (closed_closeFatal _)
  | case3 s hrest conn hnext => exact .same rfl rfl
  | case4 s hrest m conn hnext e s' hdispatch => exact .ended (closed_closeFatal _)
  | case5 s hrest m conn hnext s' hdispatch ih =>
    have hopen : s.closed = false := by simpa using (not_or.mp hrest).1
    have hconfig := config_dispatch codec (s := { s with conn := conn }) hopen hdispatch
    rcases heard_dispatch codec { s with conn := conn } now m with ⟨e, herror⟩ | hheard
    · rw [hdispatch] at herror
      cases herror
    · rw [hdispatch] at hheard
      rw [hconfig] at ih
      -- the connection is nothing the wait depends on
      have hsame : Heard (now.saturatingAdd s.config.sequenceTimeout) s { s with conn := conn } :=
        .same rfl rfl
      exact (hsame.trans hheard).trans ih

/-- **What input does to the wait.** -/
theorem heard_handleInput (codec : Codec) (s : Secc) (now : Instant) (data : List UInt8) :
    Heard (now.saturatingAdd s.config.sequenceTimeout) s (s.handleInput codec now data).2 := by
  unfold handleInput
  split
  · exact .same rfl rfl
  · split
    · exact .ended (closed_closeFatal _)
    · next conn h =>
      have hsame : Heard (now.saturatingAdd s.config.sequenceTimeout) s { s with conn := conn } :=
        .same rfl rfl
      exact hsame.trans (heard_pump codec { s with conn := conn } now)

/-- Once an answer is on its way the next request is waited for. -/
theorem waits_settle (t : Secc) (now : Instant) :
    Watch.Waits (now.saturatingAdd t.config.sequenceTimeout) t.watch (t.settle now).watch
      ∧ (t.settle now).config = t.config := by
  unfold settle
  split
  · exact ⟨.inl (closed_close _ _), config_close _ _⟩
  · split
    · exact ⟨.inl (closed_close _ _), config_close _ _⟩
    · split
      · next hclosed => exact ⟨.inl hclosed, rfl⟩
      · have hsequence := Timers.deadline_arm_self t.timers .sequence now t.config.sequenceTimeout
        have hsetup : (t.timers.arm .sequence now t.config.sequenceTimeout).deadline
            .communicationSetup = t.timers.deadline .communicationSetup :=
          Timers.deadline_arm_of_ne (by decide)
        exact ⟨.inr ⟨rfl, hsequence, .inr ⟨rfl, hsetup⟩⟩, rfl⟩

/-- **What an answer does to the wait.** Nothing if it is not taken; and if it is, the vehicle is
owed the next request from here. -/
theorem waits_respond (codec : Codec) (s : Secc) (now : Instant) (response : Message) :
    (s.queues codec (.respond now response) = []
        ∧ (s.respond codec now response).2.watch = s.watch
        ∧ (s.respond codec now response).2.events = s.events)
      ∨ s.queues codec (.respond now response) ≠ []
        ∧ Watch.Waits (now.saturatingAdd s.config.sequenceTimeout) s.watch
          (s.respond codec now response).2.watch := by
  have hmet : ∀ {flow : Option Flow}, SameOrFailed s.flow flow → flow.isSome = s.flow.isSome := by
    intro flow h
    rcases h with rfl | rfl
    · rfl
    · exact Option.isSome_map
  rcases s.answer_cases codec response with
    ⟨e, flow, h, hflow⟩ | ⟨o, flow, frame, h, -, hflow, -⟩
  · refine .inl ⟨by simp only [queues, h], ?_, by rw [respond, h]⟩
    rw [respond, h]
    unfold watch
    rw [hmet hflow]
  · refine .inr ⟨by simp [queues, h], ?_⟩
    rw [respond, h]
    dsimp only
    generalize hs' : Secc.mk .. = s'
    have hwatch : s'.watch = s.watch := by
      rw [← hs']
      unfold watch
      rw [hmet hflow]
    have hconfig : s'.config = s.config := by rw [← hs']
    obtain ⟨hwaits, hconfig'⟩ := waits_settle s' now
    have hpump := heard_pump codec (s'.settle now) now
    rw [hconfig', hconfig] at hpump
    rw [hwatch, hconfig] at hwaits
    -- what was waiting behind the answer is read at once
    cases hpump with
    | same hsame hevents => exact hsame ▸ hwaits
    | spoke hmore hevents => exact hwaits.trans hmore

/-! ## Somebody is waiting

The timer that runs was armed by the last call that read a message or took an answer. The record
of the run says which that was, and the invariant that the deadline is its own. -/

/-- The call reads a message, which the application is told of, or takes an answer. -/
def Speaks (codec : Codec) (t : Transition Secc Call) : Prop :=
  t.before.emits codec t.call ≠ [] ∨ t.before.queues codec t.call ≠ []

/-- The transport is reported open. -/
def Opens (t : Transition Secc Call) : Prop := ∃ now, t.call = .opened now

/-- `d` is a sequence timeout after the last call that read a message or took an answer. -/
def HeardAt (codec : Codec) (config : SeccConfig) (calls : List Call) (d : Instant) : Prop :=
  ∃ t later now, Since (Speaks codec) (trace (call codec) (.new config) calls) t later
    ∧ t.call.instant = some now ∧ d = now.saturatingAdd config.sequenceTimeout

/-- `d` is a setup timeout after the transport was last reported open. -/
def OpenedAt (codec : Codec) (config : SeccConfig) (calls : List Call) (d : Instant) : Prop :=
  ∃ t later now, Since Opens (trace (call codec) (.new config) calls) t later
    ∧ t.call = .opened now ∧ d = now.saturatingAdd config.setupTimeout

/-- An open station past the handshake waits for the vehicle's next message, and one before it, once
the transport is up, for the handshake. -/
structure Watched (codec : Codec) (config : SeccConfig) (calls : List Call) (s : Secc) : Prop where
  reached : s = after codec config calls
  sequenceTimeout : s.config.sequenceTimeout = config.sequenceTimeout
  setupTimeout : s.config.setupTimeout = config.setupTimeout
  met : s.closed = false → s.flow.isSome = true →
    ∃ d, s.timers.deadline .sequence = some d ∧ HeardAt codec config calls d
  unmet : s.closed = false → s.flow.isSome = false → (∃ t, .opened t ∈ calls) →
    ∃ d, s.timers.deadline .communicationSetup = some d ∧ OpenedAt codec config calls d

variable {codec : Codec} {config : SeccConfig} {calls : List Call}

theorem HeardAt.append {d : Instant} (h : HeardAt codec config calls d) {c : Call}
    (hc : ¬ Speaks codec (taken (call codec) (after codec config calls) c)) :
    HeardAt codec config (calls ++ [c]) d := by
  obtain ⟨t, later, now, hsince, hnow, hd⟩ := h
  refine ⟨t, later ++ [taken (call codec) (after codec config calls) c], now, ?_, hnow, hd⟩
  rw [trace_concat]
  exact hsince.concat hc

theorem OpenedAt.append {d : Instant} (h : OpenedAt codec config calls d) {c : Call}
    (hc : ∀ t, c ≠ .opened t) : OpenedAt codec config (calls ++ [c]) d := by
  obtain ⟨t, later, now, hsince, hopened, hd⟩ := h
  refine ⟨t, later ++ [taken (call codec) (after codec config calls) c], now, ?_, hopened, hd⟩
  rw [trace_concat]
  exact hsince.concat fun ⟨t, ht⟩ => hc t ht

theorem heardAt_self {c : Call} {now : Instant} (hnow : c.instant = some now)
    (hc : Speaks codec (taken (call codec) (after codec config calls) c)) :
    HeardAt codec config (calls ++ [c]) (now.saturatingAdd config.sequenceTimeout) := by
  refine ⟨taken (call codec) (after codec config calls) c, [], now, ?_, hnow, rfl⟩
  rw [trace_concat]
  exact since_concat_self hc

theorem opened_of_append {c : Call} (h : ∃ t, .opened t ∈ calls ++ [c])
    (hc : ∀ t, c ≠ .opened t) : ∃ t, .opened t ∈ calls := by
  obtain ⟨t, ht⟩ := h
  rcases List.mem_append.mp ht with ht | ht
  · exact ⟨t, ht⟩
  · exact absurd (List.mem_singleton.mp ht).symm (hc t)

/-- What adds no event reads nothing. -/
theorem emits_of_le {s : Secc} {c : Call} (h : (s.call codec c).events.length ≤ s.events.length) :
    s.emits codec c = [] :=
  List.drop_eq_nil_of_le h

/-- Where the wait is as it was, somebody still waits. -/
theorem Watched.keep (h : Watched codec config calls s) {c : Call} (hc : ∀ t, c ≠ .opened t)
    (hquiet : (s.call codec c).closed = false → ¬ Speaks codec (taken (call codec) s c))
    (hsequence : (s.call codec c).config.sequenceTimeout = s.config.sequenceTimeout)
    (hsetup : (s.call codec c).config.setupTimeout = s.config.setupTimeout)
    (hwatch : (s.call codec c).closed = false → (s.call codec c).watch = s.watch) :
    Watched codec config (calls ++ [c]) (s.call codec c) := by
  refine ⟨by rw [after_concat, ← h.reached], hsequence.trans h.sequenceTimeout,
    hsetup.trans h.setupTimeout, ?_, ?_⟩
  · intro hopen hmet
    have heq := hwatch hopen
    obtain ⟨d, hd, hheard⟩ := h.met ((congrArg Watch.closed heq).symm.trans hopen)
      ((congrArg Watch.met heq).symm.trans hmet)
    exact ⟨d, (congrArg Watch.sequence heq).trans hd, hheard.append (h.reached ▸ hquiet hopen)⟩
  · intro hopen hmet hopened
    have heq := hwatch hopen
    obtain ⟨d, hd, hset⟩ := h.unmet ((congrArg Watch.closed heq).symm.trans hopen)
      ((congrArg Watch.met heq).symm.trans hmet) (opened_of_append hopened hc)
    exact ⟨d, (congrArg Watch.setup heq).trans hd, hset.append hc⟩

/-- And where the vehicle has been heard, or answered, it is the next message that is waited for. -/
theorem Watched.waits (h : Watched codec config calls s) {c : Call} {now : Instant}
    (hnow : c.instant = some now) (hc : ∀ t, c ≠ .opened t)
    (hspeaks : (s.call codec c).closed = false → Speaks codec (taken (call codec) s c))
    (hconfig : (s.call codec c).config = s.config)
    (hwaits : Watch.Waits (now.saturatingAdd s.config.sequenceTimeout) s.watch
      (s.call codec c).watch) :
    Watched codec config (calls ++ [c]) (s.call codec c) := by
  refine ⟨by rw [after_concat, ← h.reached], ?_, ?_, fun hopen _ => ?_,
    fun hopen hunmet hopened => ?_⟩
  · rw [hconfig]
    exact h.sequenceTimeout
  · rw [hconfig]
    exact h.setupTimeout
  · rcases hwaits with hclosed | ⟨-, hsequence, -⟩
    · rw [show (s.call codec c).closed = true from hclosed] at hopen
      cases hopen
    · refine ⟨_, hsequence, ?_⟩
      rw [h.sequenceTimeout]
      exact heardAt_self hnow (h.reached ▸ hspeaks hopen)
  · rcases hwaits with hclosed | ⟨hclosed, -, hmet | ⟨hmet, hsetup⟩⟩
    · rw [show (s.call codec c).closed = true from hclosed] at hopen
      cases hopen
    · rw [show (s.call codec c).flow.isSome = true from hmet] at hunmet
      cases hunmet
    · obtain ⟨d, hd, hset⟩ := h.unmet
        ((show (s.call codec c).closed = s.closed from hclosed) ▸ hopen)
        ((show (s.call codec c).flow.isSome = s.flow.isSome from hmet) ▸ hunmet)
        (opened_of_append hopened hc)
      exact ⟨d, hsetup.trans hd, hset.append hc⟩

theorem config_of_steps {acts : List Act} (h : Steps Step s acts s') : s'.config = s.config := by
  refine h.invariant (g := []) (I := fun _ t => t.config = s.config) ?_ rfl
  intro log t l t' ht hstep
  cases hstep with
  | read hopen hidle hread => cases hread <;> exact ht
  | received conn hopen hconn => exact ht
  | faulted conn hopen hconn => exact ht
  | spoiled hflow => exact ht
  | answered response o frame timers howed hflow hsetup => exact ht
  | ended response o frame why hopen howed hflow hwhy => exact ht

/-- **Every call keeps somebody waiting.** -/
theorem watched_call (h : Watched codec config calls s) (c : Call) :
    Watched codec config (calls ++ [c]) (s.call codec c) := by
  -- a call that adds no event and takes no answer says nothing
  have hsilent : ∀ {c : Call}, (s.call codec c).events.length ≤ s.events.length →
      s.queues codec c = [] → ¬ Speaks codec (taken (call codec) s c) := by
    rintro c hevents hqueues (hemits | hqueues')
    · exact hemits (emits_of_le hevents)
    · exact hqueues' hqueues
  cases c with
  | opened now =>
    -- opening starts the setup timer and leaves the other one alone
    refine ⟨by rw [after_concat, ← h.reached], h.sequenceTimeout, h.setupTimeout,
      fun hopen hmet => ?_, fun _ _ _ => ?_⟩
    · obtain ⟨d, hd, hheard⟩ := h.met hopen hmet
      have hquiet : ¬ Speaks codec (taken (call codec) s (.opened now)) :=
        hsilent (Nat.le_refl _) rfl
      exact ⟨d, (Timers.deadline_arm_of_ne (by decide)).trans hd,
        hheard.append (h.reached ▸ hquiet)⟩
    · refine ⟨_, Timers.deadline_arm_self ..,
        taken (call codec) (after codec config calls) (.opened now), [], now, ?_, rfl,
        by rw [h.setupTimeout]⟩
      rw [trace_concat]
      exact since_concat_self ⟨now, rfl⟩
  -- input is heard or it is not: either the wait goes on or it begins anew
  | handleInput now data =>
    obtain ⟨acts, hsteps, -⟩ := steps_handleInput codec s now data
    have hconfig : (s.call codec (.handleInput now data)).config = s.config :=
      config_of_steps hsteps
    have hheard : Heard (now.saturatingAdd s.config.sequenceTimeout) s
        (s.call codec (.handleInput now data)) := heard_handleInput codec s now data
    cases hheard with
    | same hwatch hevents =>
      exact h.keep (fun t h => by cases h)
        (fun _ => hsilent (Nat.le_of_eq (congrArg List.length hevents)) rfl)
        (by rw [hconfig]) (by rw [hconfig]) fun _ => hwatch
    | spoke hwaits hmore =>
      refine h.waits rfl (fun t h => by cases h) (fun hopen => .inl fun hnil => ?_) hconfig hwaits
      -- with an event more there is one that the call has added
      have hlength := congrArg List.length hnil
      have hmore := hmore hopen
      unfold emits taken at hlength
      simp only [List.length_drop, List.length_nil] at hlength
      omega
  -- an answer that is taken begins the wait for the next request
  | respond now response =>
    obtain ⟨acts, hsteps, -⟩ := steps_respond codec s now response
    have hconfig : (s.call codec (.respond now response)).config = s.config :=
      config_of_steps hsteps
    rcases waits_respond codec s now response with ⟨hqueues, hwatch, hevents⟩ | ⟨hqueues, hwaits⟩
    · exact h.keep (fun t h => by cases h)
        (fun _ => hsilent (Nat.le_of_eq (congrArg List.length hevents)) hqueues)
        (by rw [hconfig]) (by rw [hconfig]) fun _ => hwatch
    · exact h.waits rfl (fun t h => by cases h) (fun _ => .inr hqueues) hconfig hwaits
  | joinSession sessionId =>
    exact h.keep (fun t h => by cases h) (fun _ => hsilent (Nat.le_refl _) rfl) rfl rfl fun _ => rfl
  | resume sessionId transfer =>
    -- a resume changes the session, not the wait
    have hresume := effect_resume s sessionId transfer
    have hcall : s.call codec (.resume sessionId transfer) = (s.resume sessionId transfer).2 := rfl
    have hkept : (s.resume sessionId transfer).2.watch = s.watch
        ∧ (s.resume sessionId transfer).2.events = s.events
        ∧ (s.resume sessionId transfer).2.config.sequenceTimeout = s.config.sequenceTimeout
        ∧ (s.resume sessionId transfer).2.config.setupTimeout = s.config.setupTimeout := by
      generalize (s.resume sessionId transfer).2 = out at hresume
      cases hresume with
      | resumed flow flow' hflow hprotocol =>
        refine ⟨?_, rfl, rfl, rfl⟩
        unfold watch joinSession
        rw [hflow]
        rfl
      | notResumed => exact ⟨rfl, rfl, rfl, rfl⟩
      | driven hc hsteps => cases hc
    obtain ⟨hwatch, hevents, hsequence, hsetup⟩ := hkept
    exact h.keep (fun t h => by cases h)
      (fun _ => hsilent (Nat.le_of_eq (congrArg List.length hevents)) rfl) hsequence hsetup
      fun _ => hwatch
  -- a reading that leaves the session open leaves both timers alone
  | handleTimeout now =>
    obtain ⟨evs, hexpired⟩ := expired_handleTimeout s now
    have hkept : (s.handleTimeout now).config = s.config
        ∧ ((s.handleTimeout now).closed = false → (s.handleTimeout now).watch = s.watch
          ∧ (s.handleTimeout now).events = s.events) := by
      generalize s.handleTimeout now = out at hexpired
      cases hexpired with
      | kept timers overdue hflow hdue htimers =>
        refine ⟨rfl, fun hopen => ⟨?_, rfl⟩⟩
        unfold watch
        dsimp only
        rw [htimers hopen .sequence (by decide), htimers hopen .communicationSetup (by decide)]
        rcases hflow with rfl | rfl
        · rfl
        · rw [Option.isSome_map]
      | timedOut timer timers overdue hopen hflow hdue =>
        exact ⟨rfl, fun hopen => by cases hopen⟩
    obtain ⟨hconfig, hsame⟩ := hkept
    exact h.keep (fun t h => by cases h)
      (fun hopen => hsilent (Nat.le_of_eq (congrArg List.length (hsame hopen).2)) rfl)
      (congrArg SeccConfig.sequenceTimeout hconfig) (congrArg SeccConfig.setupTimeout hconfig)
      fun hopen => (hsame hopen).1
  | pollEvent =>
    refine h.keep (fun t h => by cases h) (fun _ => hsilent ?_ rfl) rfl rfl fun _ => rfl
    show s.events.tail.length ≤ _
    rw [List.length_tail]
    exact Nat.sub_le ..
  | takeTransmit =>
    exact h.keep (fun t h => by cases h) (fun _ => hsilent (Nat.le_refl _) rfl) rfl rfl fun _ => rfl

theorem watched_after (codec : Codec) (config : SeccConfig) (calls : List Call) :
    Watched codec config calls (after codec config calls) := by
  induction calls using List.reverseRecOn with
  | nil =>
    refine ⟨rfl, rfl, rfl, fun _ hmet => (by cases hmet), fun _ _ hopened => ?_⟩
    obtain ⟨t, ht⟩ := hopened
    cases ht
  | append_singleton calls c ih =>
    rw [after_concat]
    exact watched_call ih c

/-! ## Silence

From the invariant: there is an alarm, no later than that deadline, and the alarm ends the
session or uses up one of finitely many timers. -/

/-- What becomes of a station that hears no more: it asks to be woken, it is gone at the latest at
`last`, a sequence timeout after the last message it read or answer it took, or, before the
handshake, a setup timeout after the transport came up; no alarm is for an instant that has passed;
and no more than four of them are needed. -/
structure SilenceEnds (codec : Codec) (config : SeccConfig) (calls : List Call) (s : Secc) :
    Prop where
  alarm : s.closed = false → ∃ d last, s.pollTimeout = some d ∧ d ≤ last
    ∧ (if s.flow.isSome then HeardAt codec config calls last else OpenedAt codec config calls last)
    ∧ ∀ now, last ≤ now → (s.handleTimeout now).closed = true
  later : ∀ now d, (s.handleTimeout now).pollTimeout = some d → now < d
  ends : (serve pollTimeout handleTimeout 4 s).closed = true

theorem Watched.alarm (h : Watched codec config calls s) (hopened : ∃ t, .opened t ∈ calls)
    (hopen : s.closed = false) : ∃ d last, s.pollTimeout = some d ∧ d ≤ last
      ∧ (if s.flow.isSome then HeardAt codec config calls last
        else OpenedAt codec config calls last)
      ∧ ∀ now, last ≤ now → (s.handleTimeout now).closed = true := by
  have hends : ∀ {timer last}, timer ≠ Timer.ongoing → s.timers.deadline timer = some last →
      ∀ now, last ≤ now → (s.handleTimeout now).closed = true :=
    fun hne hlast now hle => closed_of_overrun hopen ⟨hne, _, hlast, hle⟩
  cases hmet : s.flow.isSome with
  | true =>
    obtain ⟨last, hlast, hheard⟩ := h.met hopen hmet
    obtain ⟨d, hd, hle⟩ := Timers.exists_nextDeadline hlast
    exact ⟨d, last, hd, hle, hheard, hends (by decide) hlast⟩
  | false =>
    obtain ⟨last, hlast, hset⟩ := h.unmet hopen hmet hopened
    obtain ⟨d, hd, hle⟩ := Timers.exists_nextDeadline hlast
    exact ⟨d, last, hd, hle, hset, hends (by decide) hlast⟩

/-- **A vehicle that falls silent does not keep the station.** After any run in which the transport
came up. -/
theorem silence_ends (codec : Codec) (config : SeccConfig) (calls : List Call)
    (hopened : ∃ t, .opened t ∈ calls) :
    SilenceEnds codec config calls (after codec config calls) := by
  refine ⟨(watched_after codec config calls).alarm hopened, fun now d h => ?_, ?_⟩
  · obtain ⟨timer, hd⟩ := Timers.deadline_of_nextDeadline h
    exact lt_deadline_handleTimeout _ now hd
  · -- to be woken is a call like any other, so what is left is the state of a run too
    have hrun : ∃ calls', (∃ t, .opened t ∈ calls')
        ∧ serve pollTimeout handleTimeout 4 (after codec config calls)
          = after codec config calls' := by
      refine serve_keeps (P := fun s => ∃ calls', (∃ t, .opened t ∈ calls')
        ∧ s = after codec config calls') ?_ 4 ⟨calls, hopened, rfl⟩
      rintro s t ⟨calls', ⟨t', ht'⟩, rfl⟩
      refine ⟨calls' ++ [.handleTimeout t], ⟨t', List.mem_append_left _ ht'⟩, ?_⟩
      rw [after_concat]
      rfl
    have hnone : pollTimeout (serve pollTimeout handleTimeout 4 (after codec config calls))
        = none :=
      next_serve (fun s : Secc => s.timers.running) (fun s d h => running_handleTimeout_lt h)
        (Timers.running_le _)
    obtain ⟨calls', hopened', heq⟩ := hrun
    rw [heq] at hnone ⊢
    by_contra hopen
    obtain ⟨d, last, hd, -⟩ :=
      (watched_after codec config calls').alarm hopened' (by simpa using hopen)
    rw [hnone] at hd
    cases hd

/-- A station that has surfaced `SessionSetupReq` and is left alone. -/
theorem silence_ends_sessionSetup :
    SilenceEnds Message.Golden.exchange goldenConfig
      [.opened (.fromMillis 0),
       .handleInput (.fromMillis 1)
         (Message.Golden.frame .exiEncodedV2gMessage Message.Golden.reqIso2),
       .handleInput (.fromMillis 4)
         (Message.Golden.frame .exiEncodedV2gMessage Message.Golden.sessionSetupReq)]
      (after Message.Golden.exchange goldenConfig
        [.opened (.fromMillis 0),
         .handleInput (.fromMillis 1)
           (Message.Golden.frame .exiEncodedV2gMessage Message.Golden.reqIso2),
         .handleInput (.fromMillis 4)
           (Message.Golden.frame .exiEncodedV2gMessage Message.Golden.sessionSetupReq)]) :=
  silence_ends Message.Golden.exchange goldenConfig _ ⟨.fromMillis 0, List.mem_cons_self ..⟩

end Iso15118.Secc
