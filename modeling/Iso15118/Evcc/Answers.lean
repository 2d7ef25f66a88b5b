import Iso15118.Evcc.Effect

/-!
# The answers a vehicle takes

What a vehicle reads is the answer to the request it sent last, or the end of the session. One
request waits at a time, the next one goes out when it has been answered, and the session id the
first answer brought is what every later one is held against.

The last part has a gap. An ISO 15118-2 message may travel outside `V2G_Message`, and then it has
no header and no id to look at. What is left to ask of a run is `Conforms`, and
**`takes_what_it_asked_for`** is what such a run has.
-/

namespace Iso15118.Evcc

open Iso15118.Lib Iso15118.Session
open Iso15118.Message (Codec Outcome)

/-! ## Reading the record

Requests and events of a run in one list. What waits is the last request with no response behind
it. -/

def Act.isSent : Act → Bool
  | .sent _ => true
  | .event _ => false

/-- The response an entry surfaces. -/
def Act.response? : Act → Option Message
  | .event (.response m) => some m
  | _ => none

/-- The responses surfaced, in order. -/
def responsesOf (log : List Act) : List Message := log.filterMap Act.response?

@[simp] theorem responsesOf_nil : responsesOf [] = [] := rfl

@[simp] theorem responsesOf_append (xs ys : List Act) :
    responsesOf (xs ++ ys) = responsesOf xs ++ responsesOf ys := List.filterMap_append

/-- The request `r` waits for its answer: it is the last one sent, and nothing has been surfaced
since. -/
def Pending (log : List Act) (r : Message) : Prop :=
  ∃ later, Since (fun a : Act => a.isSent = true) log (.sent r) later ∧ responsesOf later = []

/-- A response surfaced answers the request that waits. -/
def Pairs (before : List Act) (a : Act) : Prop :=
  ∀ m, a.response? = some m → ∃ r, Pending before r ∧ m.answers r.name = true

/-- Nothing is asked and nothing is answered. -/
def Quiet (acts : List Act) : Prop := ∀ a ∈ acts, a.isSent = false ∧ a.response? = none

theorem Quiet.responsesOf_eq {acts : List Act} (h : Quiet acts) : responsesOf acts = [] :=
  List.filterMap_eq_nil_iff.mpr fun a ha => (h a ha).2

theorem quiet_nil : Quiet [] := fun a ha => by cases ha

theorem pending_sent (log : List Act) (r : Message) : Pending (log ++ [.sent r]) r :=
  ⟨[], since_concat_self rfl, rfl⟩

theorem Pending.append {log acts : List Act} {r : Message} (h : Pending log r) (hq : Quiet acts) :
    Pending (log ++ acts) r := by
  obtain ⟨later, hsince, hlater⟩ := h
  refine ⟨later ++ acts, hsince.append fun a ha hsent => ?_, ?_⟩
  · rw [(hq a ha).1] at hsent
    cases hsent
  · rw [responsesOf_append, hlater, hq.responsesOf_eq, List.append_nil]

theorem quiet_event {event : Event} (h : ∀ m, event ≠ .response m) : Quiet [.event event] := by
  intro a ha
  rw [List.mem_singleton.mp ha]
  refine ⟨rfl, ?_⟩
  cases event with
  | response m => exact absurd rfl (h m)
  | protocolAgreed protocol => rfl
  | failed => rfl
  | closed why => rfl

/-- Where nothing is answered, there is nothing new to ask of the answers. -/
theorem along_append_of_quiet {P : List Act → Message → Prop} {log acts : List Act}
    (h : Along (fun before a => ∀ m, a.response? = some m → P before m) log)
    (hacts : ∀ a ∈ acts, a.response? = none) :
    Along (fun before a => ∀ m, a.response? = some m → P before m) (log ++ acts) := by
  refine (along_append _ _).mpr ⟨h, fun before a after heq m hm => ?_⟩
  rw [hacts a (by rw [heq]; simp)] at hm
  cases hm

/-- What is surfaced behind an answer is no answer. -/
theorem along_append_of_answer {P : List Act → Message → Prop} {log : List Act} {m : Message}
    {more : List Event} (h : Along (fun before a => ∀ m, a.response? = some m → P before m) log)
    (hm : P log m) (hmore : ∀ event ∈ more, ∀ m', event ≠ .response m') :
    Along (fun before a => ∀ m, a.response? = some m → P before m)
      (log ++ (.response m :: more).map .event) := by
  rw [List.map_cons, ← List.singleton_append, ← List.append_assoc]
  refine along_append_of_quiet ((along_concat _ _).mpr ⟨h, fun m' hm' => ?_⟩) fun a ha => ?_
  · cases hm'
    exact hm
  · obtain ⟨event, hevent, rfl⟩ := List.mem_map.mp ha
    have hquiet := quiet_event (hmore event hevent)
    exact (hquiet _ (List.mem_singleton_self _)).2

/-! ## Every answer pairs

A response is checked against the outstanding request by name, and clears it. So along the record
requests and responses alternate. -/

/-- Responses have answered what was asked, and what is outstanding is what was asked last. -/
structure Paired (log : List Act) (s : Evcc) : Prop where
  pairs : Along Pairs log
  owed : ∀ name, s.outstanding = some name → ∃ r, Pending log r ∧ r.name = name

theorem Paired.quiet {log acts : List Act} {s s' : Evcc} (h : Paired log s) (hq : Quiet acts)
    (howed : s'.outstanding = s.outstanding ∨ s'.outstanding = none) :
    Paired (log ++ acts) s' where
  pairs := along_append_of_quiet h.pairs fun a ha => (hq a ha).2
  owed name hname := by
    rcases howed with howed | howed
    · obtain ⟨r, hr, hrname⟩ := h.owed name (howed.symm.trans hname)
      exact ⟨r, hr.append hq, hrname⟩
    · rw [howed] at hname
      cases hname

/-- The answer is surfaced, and whatever follows it is no answer. -/
theorem Paired.answered {log : List Act} {s s' : Evcc} {m : Message} {expected : String}
    {more : List Event} (h : Paired log s) (hans : Answers s m expected)
    (hmore : ∀ event ∈ more, ∀ m', event ≠ .response m') (hnone : s'.outstanding = none) :
    Paired (log ++ (.response m :: more).map .event) s' where
  pairs := by
    obtain ⟨r, hr, hrname⟩ := h.owed expected hans.owed
    have hpairs : m.answers r.name = true := by
      rw [hrname]
      exact hans.pairs
    exact along_append_of_answer h.pairs ⟨r, hr, hpairs⟩ hmore
  owed name hname := by
    rw [hnone] at hname
    cases hname

theorem paired_step {R : Evcc → Message → Prop} {log acts : List Act} {s s' : Evcc}
    (h : Paired log s) (hstep : Step R s acts s') : Paired (log ++ acts) s' := by
  cases hstep with
  | received conn hopen hconn => exact h.quiet quiet_nil (.inl rfl)
  | faulted conn answeredAt hopen hconn => exact h.quiet (quiet_event (by simp)) (.inr rfl)
  | read now hopen hread hgen hdispatched =>
    cases hdispatched with
    | rejected res set hm hans => exact h.quiet (quiet_event (by simp)) (.inr rfl)
    | agreed res protocol set flow hm hans hnew =>
      exact h.quiet (quiet_event (by simp)) (.inr rfl)
    | surfaced more timers hm hans hid hmore hongoing hsetup =>
      refine h.answered hans (fun event hevent m' heq => ?_) rfl
      rcases hmore with hmore | hmore <;> simp_all
    | ended why hm hans hid hwhy => exact h.answered hans (by simp) rfl

/-- A call of the vehicle keeps responses paired with what was asked. -/
theorem paired_effect {codec : Codec} {log acts : List Act} {s s' : Evcc} {c : Call}
    (h : Paired log s) (heffect : Effect codec s c acts s') : Paired (log ++ acts) s' := by
  have hsent : ∀ {r : Message}, Along Pairs (log ++ [.sent r]) := by
    intro r
    refine along_append_of_quiet h.pairs fun a ha => ?_
    rw [List.mem_singleton.mp ha]
    rfl
  cases heffect with
  | started now frame hidle hflow hopen =>
    refine ⟨hsent, fun name hname => ⟨_, pending_sent log _, ?_⟩⟩
    exact Option.some.inj hname
  | asked now flow flow' frame phase timers hopen hidle hreq hflow haccept hbudget =>
    refine ⟨hsent, fun name hname => ⟨_, pending_sent log _, ?_⟩⟩
    exact (Message.sameButHeader_setSessionId _ _).name.trans (Option.some.inj hname)
  | refused hc => exact h.quiet quiet_nil (.inl rfl)
  | polled => exact h.quiet quiet_nil (.inl rfl)
  | taken => exact h.quiet quiet_nil (.inl rfl)
  | resumed flow flow' hflow hresume => exact h.quiet quiet_nil (.inl rfl)
  | notResumed => exact h.quiet quiet_nil (.inl rfl)
  | ticked now hexpired =>
    cases hexpired with
    | quiet hdue => exact h.quiet quiet_nil (.inl rfl)
    | timedOut hopen hd hle => exact h.quiet (quiet_event (by simp)) (.inl rfl)
    | past timers hclosed htimers => exact h.quiet quiet_nil (.inl rfl)
  | driven now data hsteps =>
    exact hsteps.invariant (I := Paired) (fun _ _ _ _ h hstep => paired_step h hstep) h

theorem paired_after (codec : Codec) (config : EvccConfig) (calls : List Call) :
    Paired (history codec config calls) (after codec config calls) := by
  refine invariant_of_effect (C := fun _ _ => True) ⟨along_nil, fun _ h => by cases h⟩ ?_
    (along_const.mpr fun _ _ => trivial)
  intro log s c acts s' h _ heffect
  exact paired_effect h heffect

/-! ## The generation of what is read

The connection reads what the flow is of, from the handshake to the end of the session. -/

/-- The connection reads the generation the flow is of. -/
def Agrees (s : Evcc) : Prop := s.conn.protocol = s.flow.map Flow.protocol

theorem protocol_told (flow : Option Flow) (m : Message) :
    (told flow m).map Flow.protocol = flow.map Flow.protocol := by
  unfold told
  split
  · cases flow with
    | none => rfl
    | some flow => exact congrArg some flow.protocol_recordFailure
  · rfl

theorem agrees_step {R : Evcc → Message → Prop} {acts : List Act} {s s' : Evcc} (h : Agrees s)
    (hstep : Step R s acts s') : Agrees s' := by
  cases hstep with
  | received conn hopen hconn => exact hconn.protocol.trans h
  | faulted conn answeredAt hopen hconn => exact hconn.protocol.trans h
  | read now hopen hread hgen hdispatched =>
    cases hdispatched with
    | rejected res set hm hans => exact h
    | agreed res protocol set flow hm hans hnew =>
      exact congrArg some (Flow.protocol_of_new hnew).symm
    | surfaced more timers hm hans hid hmore hongoing hsetup =>
      exact Eq.trans h (protocol_told s.flow _).symm
    | ended why hm hans hid hwhy => exact Eq.trans h (protocol_told s.flow _).symm

/-- A call keeps the protocol of the connection and of the flow the same. -/
theorem agrees_effect {codec : Codec} {acts : List Act} {s s' : Evcc} {c : Call} (h : Agrees s)
    (heffect : Effect codec s c acts s') : Agrees s' := by
  cases heffect with
  | started now frame hidle hflow hopen => exact h
  | asked now flow flow' frame phase timers hopen hidle hreq hflow haccept hbudget =>
    show s.conn.protocol = some flow'.protocol
    rw [Flow.protocol_of_accept haccept, h, hflow]
    rfl
  | refused hc => exact h
  | polled => exact h
  | taken => exact h
  | resumed flow flow' hflow hresume =>
    show s.conn.protocol = some flow'.protocol
    rw [Flow.protocol_of_resume hresume, h, hflow]
    rfl
  | notResumed => exact h
  | ticked now hexpired => cases hexpired <;> exact h
  | driven now data hsteps =>
    exact hsteps.invariant (g := []) (I := fun _ => Agrees)
      (fun _ _ _ _ h hstep => agrees_step h hstep) h

theorem generation_ne_none {m : Message} (hm : ∀ res, m ≠ .appProtocolRes res)
    (hreq : m.isRequest = false) : m.generation ≠ none := by
  cases m with
  | appProtocolReq req =>
    have hname : Message.endsWith "supportedAppProtocolReq" "Req" = true := by decide
    exact absurd (hname.symm.trans hreq) (by decide)
  | appProtocolRes res => exact absurd rfl (hm res)
  | iso2 doc | iso20 doc | iso20Ac doc | iso20Dc doc | iso20Wpt doc | iso20Acdp doc
  | iso20AcDerIec doc | iso20AcDerSae doc => exact Option.some_ne_none _

/-! ## The session id

The first id a response brings is the session's. A response without a header brings none and is
let through, so what is asked of a run is that there be none. -/

/-- An answer to a request of the session has an id in its header. -/
def Headed (t : Evcc) (m : Message) : Prop :=
  ∀ name, t.outstanding = some name → m.answers name = true → m.generation ≠ none →
    m.sessionId ≠ none

/-- What is asked of the calls of a run: the answers read are headed, and a session that is resumed
has been set up. -/
structure Conforms (codec : Codec) (s : Evcc) (c : Call) : Prop where
  headed : ∀ t m, s.ReadBy codec c t m → Headed t m
  resumed : ∀ transfer, c = .resume transfer → s.established = true

/-- Every response so far has carried the id of the session. -/
structure Identity (log : List Act) (s : Evcc) : Prop where
  fresh : s.established = false → responsesOf log = []
  identified : s.established = true →
    s.sessionId.isNone = false ∧ ∀ m ∈ responsesOf log, m.sessionId = some s.sessionId

theorem Identity.quiet {log acts : List Act} {s s' : Evcc} (h : Identity log s)
    (hq : responsesOf acts = []) (hest : s'.established = s.established)
    (hid : s'.sessionId = s.sessionId) : Identity (log ++ acts) s' := by
  constructor
  · intro hfresh
    rw [responsesOf_append, hq, h.fresh (hest.symm.trans hfresh)]
    rfl
  · intro hestablished
    rw [responsesOf_append, hq, List.append_nil, hid]
    exact h.identified (hest.symm.trans hestablished)

/-- A response with an id in it brings the id of the session, or repeats it. -/
theorem Identity.surfaced {log : List Act} {s s' : Evcc} {m : Message} {id : SessionId}
    {est : Bool} {evs : List Event} (h : Identity log s) (hid : Identified s m id est)
    (hsome : m.sessionId ≠ none) (hevs : responsesOf (evs.map .event) = [m])
    (hest : s'.established = est) (hsession : s'.sessionId = id) :
    Identity (log ++ evs.map .event) s' := by
  have hall : est = true ∧ id.isNone = false ∧ m.sessionId = some id
      ∧ ∀ m' ∈ responsesOf log, m'.sessionId = some id := by
    cases hid with
    | unread hnone => exact absurd hnone hsome
    | assigned id hread hnew hzero =>
      refine ⟨rfl, hzero, hread, ?_⟩
      rw [h.fresh hnew]
      exact fun _ hmem => by cases hmem
    | repeated hread hestablished =>
      obtain ⟨hzero, hlog⟩ := h.identified hestablished
      exact ⟨hestablished, hzero, hread, hlog⟩
  obtain ⟨hest', hzero, hm, hlog⟩ := hall
  constructor
  · intro hfresh
    rw [hest, hest'] at hfresh
    cases hfresh
  · intro _
    rw [hsession, responsesOf_append, hevs]
    refine ⟨hzero, fun m' hmem => ?_⟩
    rcases List.mem_append.mp hmem with hmem | hmem
    · exact hlog m' hmem
    · rw [List.mem_singleton.mp hmem]
      exact hm

theorem responsesOf_surfaced (m : Message) {more : List Event}
    (hmore : more = [] ∨ more = [.failed]) :
    responsesOf ((.response m :: more).map .event) = [m] := by
  rcases hmore with rfl | rfl <;> rfl

theorem identity_step {R : Evcc → Message → Prop} (hR : ∀ t m, R t m → Headed t m)
    {log acts : List Act} {s s' : Evcc} (h : Identity log s) (hstep : Step R s acts s') :
    Identity (log ++ acts) s' := by
  cases hstep with
  | received conn hopen hconn => exact h.quiet rfl rfl rfl
  | faulted conn answeredAt hopen hconn => exact h.quiet rfl rfl rfl
  | read now hopen hread hgen hdispatched =>
    cases hdispatched with
    | rejected res set hm hans => exact h.quiet rfl rfl rfl
    | agreed res protocol set flow hm hans hnew => exact h.quiet rfl rfl rfl
    | surfaced more timers hm hans hid hmore hongoing hsetup =>
      have hsome := hR _ _ hread _ hans.owed hans.pairs (generation_ne_none hm hans.response)
      exact h.surfaced hid hsome (responsesOf_surfaced _ hmore) rfl rfl
    | ended why hm hans hid hwhy =>
      have hsome := hR _ _ hread _ hans.owed hans.pairs (generation_ne_none hm hans.response)
      exact h.surfaced hid hsome rfl rfl rfl

/-- A call keeps the id on record the one of every response. -/
theorem identity_effect {codec : Codec} {log acts : List Act} {s s' : Evcc} {c : Call}
    (h : Identity log s) (hc : Conforms codec s c) (heffect : Effect codec s c acts s') :
    Identity (log ++ acts) s' := by
  cases heffect with
  | started now frame hidle hflow hopen => exact h.quiet rfl rfl rfl
  | asked now flow flow' frame phase timers hopen hidle hreq hflow haccept hbudget =>
    exact h.quiet rfl rfl rfl
  | refused hasks => exact h.quiet rfl rfl rfl
  | polled => exact h.quiet rfl rfl rfl
  | taken => exact h.quiet rfl rfl rfl
  | resumed flow flow' hflow hresume => exact h.quiet rfl rfl rfl
  | notResumed => exact h.quiet rfl rfl rfl
  | ticked now hexpired =>
    cases hexpired with
    | quiet hdue => exact h.quiet rfl rfl rfl
    | timedOut hopen hd hle => exact h.quiet rfl rfl rfl
    | past timers hclosed htimers => exact h.quiet rfl rfl rfl
  | driven now data hsteps =>
    exact hsteps.invariant (I := Identity)
      (fun _ _ _ _ h hstep => identity_step hc.headed h hstep) h

/-! ## The setup timer

The timer is started with the offer and stopped by the response that brings the id. In between
the session is opening, and closing stops the timer too. -/

/-- A session without an id is on its way to one: before the handshake, behind it with nothing
asked, or waiting for the answer to `SessionSetupReq`. -/
inductive Opening (s : Evcc) : Prop where
  | handshake (h : s.flow = none)
  | negotiated (flow : Flow) (h : s.flow = some flow) (hstart : flow.AtStart)
      (hidle : s.outstanding = none)
  | settingUp (h : s.outstanding = some "SessionSetupReq")

/-- The setup timer runs until the session has an id, which `SessionSetupRes` brings. -/
structure SetUp (log : List Act) (s : Evcc) : Prop where
  agrees : Agrees s
  started : (∃ req, .sent (.appProtocolReq req) ∈ log) → s.offer.isSome = true
  armed : s.offer.isSome = true → s.closed = false → s.established = false →
    (s.timers.deadline .communicationSetup).isSome = true
  opening : s.closed = false → s.established = false → Opening s
  answered : s.closed = false → s.established = true →
    ∃ m ∈ responsesOf log, m.name = "SessionSetupRes"

/-- The flow reads no request out of the handshake. -/
theorem not_accept_appProtocolReq {flow flow' : Flow} {req : AppProtocol.Req}
    (h : flow.accept (.appProtocolReq req) = (.ok (), flow')) : False := by
  cases flow <;> cases h

theorem not_sent_event (req : AppProtocol.Req) (evs : List Event) :
    Act.sent (.appProtocolReq req) ∉ evs.map .event := by
  intro h
  obtain ⟨event, -, heq⟩ := List.mem_map.mp h
  cases heq

/-- What is not the offer does not start anything. -/
theorem SetUp.started_append {log acts : List Act} {s : Evcc} (h : SetUp log s)
    (hacts : ∀ req, .sent (.appProtocolReq req) ∉ acts) :
    (∃ req, .sent (.appProtocolReq req) ∈ log ++ acts) → s.offer.isSome = true := by
  rintro ⟨req, hreq⟩
  rcases List.mem_append.mp hreq with hreq | hreq
  · exact h.started ⟨req, hreq⟩
  · exact absurd hreq (hacts req)

/-- A session that is over has nothing left to set up. -/
theorem SetUp.closed {log : List Act} {s s' : Evcc} (h : SetUp log s) (evs : List Event)
    (hagrees : Agrees s') (hoffer : s'.offer = s.offer) (hclosed : s'.closed = true) :
    SetUp (log ++ evs.map .event) s' := by
  have hnot : s'.closed ≠ false := by rw [hclosed]; decide
  refine ⟨hagrees, ?_, fun _ hopen => absurd hopen hnot, fun hopen => absurd hopen hnot,
    fun hopen => absurd hopen hnot⟩
  rw [hoffer]
  exact h.started_append fun req => not_sent_event req evs

theorem mem_responsesOf_append {log acts : List Act} {P : Message → Prop}
    (h : ∃ m ∈ responsesOf log, P m) : ∃ m ∈ responsesOf (log ++ acts), P m := by
  obtain ⟨m, hm, hP⟩ := h
  exact ⟨m, by rw [responsesOf_append]; exact List.mem_append_left _ hm, hP⟩

/-- A call that touches neither the id nor the setup timer. -/
theorem SetUp.kept {log : List Act} {s s' : Evcc} (h : SetUp log s) (evs : List Event)
    (hagrees : Agrees s') (hoffer : s'.offer = s.offer) (hclosed : s'.closed = s.closed)
    (hest : s'.established = s.established)
    (hsetup : s'.timers.deadline .communicationSetup = s.timers.deadline .communicationSetup)
    (hopening : s'.closed = false → s'.established = false → Opening s') :
    SetUp (log ++ evs.map .event) s' := by
  refine ⟨hagrees, ?_, ?_, hopening, ?_⟩
  · rw [hoffer]
    exact h.started_append fun req => not_sent_event req evs
  · rw [hoffer, hclosed, hest, hsetup]
    exact h.armed
  · rw [hclosed, hest]
    exact fun hopen hestablished => mem_responsesOf_append (h.answered hopen hestablished)

/-- An answer that is surfaced brings the session its id, so that there is nothing left to set up;
and if it is the first one, it is the answer to `SessionSetupReq`. -/
theorem setUp_surfaced {R : Evcc → Message → Prop} (hR : ∀ t m, R t m → Headed t m)
    {log : List Act} {s : Evcc} {now : Instant} {m : Message} {expected : String} {id : SessionId}
    {est : Bool} {more : List Event} {timers : Timers} (h : SetUp log s)
    (hopen : s.closed = false) (hread : R s m) (hgen : m.generation = s.conn.protocol)
    (hm : ∀ res, m ≠ .appProtocolRes res) (hans : Answers s m expected)
    (hid : Identified s m id est)
    (hagrees : Agrees { s with
      timers := timers
      outstanding := none
      answeredAt := some now
      sessionId := id
      established := est
      flow := told s.flow m
      events := s.events ++ .response m :: more }) :
    SetUp (log ++ (.response m :: more).map .event)
      { s with
        timers := timers
        outstanding := none
        answeredAt := some now
        sessionId := id
        established := est
        flow := told s.flow m
        events := s.events ++ .response m :: more } := by
  have hgenerated := generation_ne_none hm hans.response
  have hsome := hR _ _ hread _ hans.owed hans.pairs hgenerated
  -- an answer of a session carries its id, so the vehicle has one now
  have hest : est = true := by
    cases hid with
    | unread hnone => exact absurd hnone hsome
    | assigned id hread hnew hzero => rfl
    | repeated hread hestablished => exact hestablished
  subst hest
  refine ⟨hagrees, h.started_append fun req => not_sent_event req _, fun _ _ hest => ?_,
    fun _ hest => ?_, fun _ _ => ?_⟩
  · cases hest
  · cases hest
  · -- the first answer is the one to `SessionSetupReq`
    cases hfirst : s.established with
    | true => exact mem_responsesOf_append (h.answered hopen hfirst)
    | false =>
      refine ⟨m, by simp [responsesOf, Act.response?], ?_⟩
      cases h.opening hopen hfirst with
      | handshake hflow =>
        have hnone : m.generation = none := by
          rw [hgen, h.agrees, hflow]
          rfl
        exact absurd hnone hgenerated
      | negotiated flow hflow hstart hidle =>
        rw [hans.owed] at hidle
        cases hidle
      | settingUp howed =>
        have hexpected : expected = "SessionSetup" ++ "Req" :=
          Option.some.inj (hans.owed.symm.trans howed)
        have hpairs := hans.pairs
        rw [hexpected, Message.answers_append_req] at hpairs
        exact hpairs

/-- A step keeps the setup timer running until the session has an id. -/
theorem setUp_step {R : Evcc → Message → Prop} (hR : ∀ t m, R t m → Headed t m)
    {log acts : List Act} {s s' : Evcc} (h : SetUp log s) (hstep : Step R s acts s') :
    SetUp (log ++ acts) s' := by
  have hagrees := agrees_step h.agrees hstep
  cases hstep with
  | received conn hopen hconn =>
    refine h.kept [] hagrees rfl rfl rfl rfl fun hopen hest => ?_
    cases h.opening hopen hest with
    | handshake hflow => exact .handshake hflow
    | negotiated flow hflow hstart hidle => exact .negotiated flow hflow hstart hidle
    | settingUp howed => exact .settingUp howed
  | faulted conn answeredAt hopen hconn => exact h.closed [.closed .fatal] hagrees rfl rfl
  | read now hopen hread hgen hdispatched =>
    cases hdispatched with
    | rejected res set hm hans => exact h.closed [.closed .noCommonProtocol] hagrees rfl rfl
    | agreed res protocol set flow hm hans hnew =>
      refine h.kept [.protocolAgreed protocol] hagrees rfl rfl rfl ?_ fun _ _ => ?_
      · exact Timers.deadline_disarm_of_ne (by decide)
      · exact .negotiated flow rfl (Flow.atStart_of_new hnew) rfl
    | surfaced more timers hm hans hid hmore hongoing hsetup =>
      exact setUp_surfaced hR h hopen hread hgen hm hans hid hagrees
    | ended why hm hans hid hwhy => exact h.closed [.response _, .closed why] hagrees rfl rfl

/-- Every call keeps the state of the setup timer: it is started by the offer, and no call but one
that closes the session, or brings its id, stops it. -/
theorem setUp_effect {codec : Codec} {log acts : List Act} {s s' : Evcc} {c : Call}
    (h : SetUp log s) (hc : Conforms codec s c) (heffect : Effect codec s c acts s') :
    SetUp (log ++ acts) s' := by
  have hagrees := agrees_effect h.agrees heffect
  -- what leaves flow and outstanding request alone leaves the session on its way
  have hsame : ∀ {t : Evcc}, t.flow = s.flow → t.outstanding = s.outstanding → Opening s →
      Opening t := by
    intro t hflow howed hopening
    cases hopening with
    | handshake h => exact .handshake (hflow.trans h)
    | negotiated flow h hstart hidle =>
      exact .negotiated flow (hflow.trans h) hstart (howed.trans hidle)
    | settingUp h => exact .settingUp (howed.trans h)
  cases heffect with
  -- the offer starts the timer, and the session is on its way
  | started now frame hidle hflow hopen =>
    refine ⟨hagrees, fun _ => rfl, fun _ _ _ => ?_, fun _ _ => .handshake hflow, ?_⟩
    · show (Timers.deadline _ _).isSome = true
      rw [Timers.deadline_arm_of_ne (by decide), Timers.deadline_arm_self]
      rfl
    · exact fun hopen hest => mem_responsesOf_append (h.answered hopen hest)
  -- a request moves the flow on; the first one there can be is `SessionSetupReq`
  | asked now flow flow' frame phase timers hopen hidle hreq hflow haccept hbudget =>
    refine ⟨hagrees, h.started_append fun req hmem => ?_, fun hoffer _ hest => ?_,
      fun _ hest => ?_, fun _ hest => mem_responsesOf_append (h.answered hopen hest)⟩
    · rw [← List.mem_singleton.mp hmem |> Act.sent.inj] at haccept
      exact not_accept_appProtocolReq haccept
    · rw [show Timers.deadline _ _ = _ from hbudget.setup]
      exact h.armed hoffer hopen hest
    · cases h.opening hopen hest with
      | handshake hnone =>
        rw [hflow] at hnone
        cases hnone
      | negotiated flow'' hflow'' hstart _ =>
        rw [hflow] at hflow''
        cases hflow''
        have hname := Flow.name_of_accept_atStart hstart haccept
        rw [(Message.sameButHeader_setSessionId _ _).name] at hname
        exact .settingUp (congrArg some hname)
      | settingUp howed =>
        rw [hidle] at howed
        cases howed
  | refused hasks =>
    exact h.kept [] hagrees rfl rfl rfl rfl fun ho he => hsame rfl rfl (h.opening ho he)
  | polled => exact h.kept [] hagrees rfl rfl rfl rfl fun ho he => hsame rfl rfl (h.opening ho he)
  | taken => exact h.kept [] hagrees rfl rfl rfl rfl fun ho he => hsame rfl rfl (h.opening ho he)
  -- a resumed session has been set up before
  | resumed flow flow' hflow hresume =>
    have hest := hc.resumed _ rfl
    refine h.kept [] hagrees rfl rfl rfl rfl fun _ hnot => ?_
    rw [show s.established = false from hnot] at hest
    cases hest
  | notResumed =>
    exact h.kept [] hagrees rfl rfl rfl rfl fun ho he => hsame rfl rfl (h.opening ho he)
  -- the clock leaves the timer alone or ends the session
  | ticked now hexpired =>
    cases hexpired with
    | quiet hdue =>
      exact h.kept [] hagrees rfl rfl rfl rfl fun ho he => hsame rfl rfl (h.opening ho he)
    | timedOut hopen hd hle => exact h.closed [.closed (.timeout _)] hagrees rfl rfl
    | past timers hclosed htimers => exact h.closed [] hagrees rfl hclosed
  -- reading goes message by message
  | driven now data hsteps =>
    exact hsteps.invariant (I := SetUp) (fun _ _ _ _ h hstep => setUp_step hc.headed h hstep) h

/-! ## Anything else is a fault

Whatever is read and is not the answer asked for ends the session, in the call that reads it. -/

/-- The answer that was asked for: it pairs, and has the id of the session, or one to give it. -/
def Accepts (t : Evcc) (m : Message) : Prop :=
  ∃ name, t.outstanding = some name ∧ m.answers name = true
    ∧ (m.generation ≠ none → ∃ id, m.sessionId = some id
        ∧ (t.established = false → id.isNone = false)
        ∧ (t.established = true → id = t.sessionId))

theorem Reads.isOpen {codec : Codec} {now : Instant} {s t : Evcc} {m : Message}
    (h : Reads codec now s t m) (hopen : s.closed = false) : t.closed = false := by
  induction h with
  | here _ => exact hopen
  | later _ _ hopen' _ ih => exact ih hopen'

/-- A fault in the message read is what the loop returns. -/
theorem Reads.drain_error {codec : Codec} {now : Instant} {s t : Evcc} {m : Message}
    {e : EvccError} (h : Reads codec now s t m) (hfault : (t.dispatch now m).1 = .error e) :
    (s.drain codec now).1 = .error e := by
  -- induction on the messages read before the one with the fault
  induction h with
  | here hnext =>
    rw [drain]
    split
    · next hnext' =>
      rw [hnext] at hnext'
      cases hnext'
    · next hnext' =>
      rw [hnext] at hnext'
      cases hnext'
    · next hnext' =>
      rw [hnext] at hnext'
      cases hnext'
      -- the call stops at the fault
      split
      · next hdispatch =>
        rw [hdispatch] at hfault
        exact hfault
      · next hdispatch =>
        rw [hdispatch] at hfault
        cases hfault
  | later hnext hdispatch hopen rest ih =>
    rw [drain]
    split
    · next hnext' =>
      rw [hnext] at hnext'
      cases hnext'
    · next hnext' =>
      rw [hnext] at hnext'
      cases hnext'
    · next hnext' =>
      rw [hnext] at hnext'
      cases hnext'
      split
      · next hdispatch' =>
        rw [hdispatch] at hdispatch'
        cases hdispatch'
      · next hdispatch' =>
        rw [hdispatch] at hdispatch'
        cases hdispatch'
        -- a message the vehicle takes is followed by the next
        rw [if_neg (by simp [hopen])]
        exact ih hfault

/-- A message that is no fault was expected: it answers the request that waits, under the session's
id. -/
theorem accepts_of_dispatch {t : Evcc} {now : Instant} {m : Message} (hopen : t.closed = false)
    (hheaded : Headed t m) (h : (t.dispatch now m).1 = .ok ()) : Accepts t m := by
  obtain ⟨evs, hdispatched⟩ := dispatched_dispatch now m hopen
  generalize t.dispatch now m = out at h hdispatched
  have hsurfaced : ∀ {expected : String} {id : SessionId} {est : Bool}, Answers t m expected →
      (∀ res, m ≠ .appProtocolRes res) → Identified t m id est → Accepts t m := by
    intro expected id est hans hm hid
    refine ⟨expected, hans.owed, hans.pairs, fun hgen => ?_⟩
    cases hid with
    | unread hnone => exact absurd hnone (hheaded expected hans.owed hans.pairs hgen)
    | assigned id hread hnew hzero =>
      refine ⟨id, hread, fun _ => hzero, fun hest => ?_⟩
      rw [hnew] at hest
      cases hest
    | repeated hread hest =>
      refine ⟨_, hread, fun hnew => ?_, fun _ => rfl⟩
      rw [hest] at hnew
      cases hnew
  cases hdispatched with
  | fault e timers outstanding answeredAt => cases h
  | rejected res set hm hans =>
    exact ⟨_, hans.owed, hans.pairs, fun hgen => absurd (by rw [hm]; rfl) hgen⟩
  | agreed res protocol set flow hm hans hnew =>
    exact ⟨_, hans.owed, hans.pairs, fun hgen => absurd (by rw [hm]; rfl) hgen⟩
  | surfaced more timers hm hans hid hmore hongoing hsetup => exact hsurfaced hans hm hid
  | ended why hm hans hid hwhy => exact hsurfaced hans hm hid

theorem closed_closeFatal (s : Evcc) : s.closeFatal.closed = true := by
  cases hclosed : s.closed with
  | true => rw [closeFatal, if_pos hclosed, hclosed]
  | false => rw [closeFatal_of_open hclosed]

/-- The call returned an error and the session is over for good. -/
structure Faulted (codec : Codec) (s : Evcc) (now : Instant) (data : List UInt8) : Prop where
  returned : ∃ e, (s.handleInput codec now data).1 = .error e
  closed : (s.handleInput codec now data).2.closed = true
  fatal : .closed .fatal ∈ s.emits codec (.handleInput now data)

/-- An input that returns an error has ended the session with a fault. -/
theorem faulted_of_error {codec : Codec} {s : Evcc} {now : Instant} {data : List UInt8}
    {e : EvccError} (h : (s.handleInput codec now data).1 = .error e) :
    Faulted codec s now data := by
  refine ⟨⟨e, h⟩, ?_, ?_⟩
  · unfold handleInput at h ⊢
    split at h
    · cases h
    · next hclosed =>
      rw [if_neg hclosed]
      split at h
      · exact closed_closeFatal _
      · rw [fst_closeOnError] at h
        generalize drain codec _ now = out at h
        obtain ⟨result, s'⟩ := out
        cases h
        exact closed_closeFatal s'
  · obtain ⟨acts, hsteps, hfatal⟩ := steps_handleInput codec s now data
    obtain ⟨evs, rfl, hevents⟩ := acts_of_steps hsteps
    obtain ⟨event, hevent, heq⟩ := List.mem_map.mp (hfatal e h)
    cases heq
    have hemits : s.emits codec (.handleInput now data) = evs := by
      rw [emits]
      exact (congrArg (List.drop s.events.length) hevents).trans List.drop_left
    rw [hemits]
    exact hevent

theorem faulted_of_readBy {codec : Codec} {s t : Evcc} {now : Instant} {data : List UInt8}
    {m : Message} (hread : s.ReadBy codec (.handleInput now data) t m) (hheaded : Headed t m)
    (hnot : ¬ Accepts t m) : Faulted codec s now data := by
  obtain ⟨hopen, conn, hreceive, hreads⟩ := hread
  cases hdispatch : (t.dispatch now m).1 with
  | ok _ => exact absurd (accepts_of_dispatch (hreads.isOpen hopen) hheaded hdispatch) hnot
  | error e =>
    refine faulted_of_error (e := e) ?_
    unfold handleInput
    rw [if_neg (by simp [hopen]), hreceive]
    dsimp only
    rw [fst_closeOnError]
    exact hreads.drain_error hdispatch

/-! ## The whole of it

The parts of the claim, each with its own invariant, over one run. -/

/-- **The vehicle takes the answer it asked for.** Every response surfaced answers the request that
was waiting, and carries the one id of the session; anything else that is read is a fault and ends
it; and the setup timer runs from the start until `SessionSetupRes` or the end. -/
structure Takes (codec : Codec) (config : EvccConfig) (calls : List Call) : Prop where
  pairs : Along Pairs (history codec config calls)
  identity : ∀ m ∈ responsesOf (history codec config calls),
    m.sessionId = some (after codec config calls).sessionId
      ∧ (after codec config calls).sessionId.isNone = false
  refuses : ∀ before now data rest, calls = before ++ .handleInput now data :: rest →
    ∀ t m, (after codec config before).ReadBy codec (.handleInput now data) t m →
      ¬ Accepts t m → Faulted codec (after codec config before) now data
  armed : (∃ req, .sent (.appProtocolReq req) ∈ history codec config calls) →
    (after codec config calls).closed = false →
    (∀ m ∈ responsesOf (history codec config calls), m.name ≠ "SessionSetupRes") →
    ((after codec config calls).timers.deadline .communicationSetup).isSome = true

/-- A run in which every answer read has a session id, and which resumes only what has been set up,
is one of a vehicle that takes the answers it asked for. -/
theorem takes_what_it_asked_for (codec : Codec) (config : EvccConfig) (calls : List Call)
    (h : Along (fun before c => Conforms codec (after codec config before) c) calls) :
    Takes codec config calls := by
  have hidentity : Identity (history codec config calls) (after codec config calls) :=
    invariant_of_effect (C := Conforms codec)
      ⟨fun _ => rfl, fun hest => by cases hest⟩
      (fun _ _ _ _ _ h hc heffect => identity_effect h hc heffect) h
  have hsetUp : SetUp (history codec config calls) (after codec config calls) := by
    refine invariant_of_effect (C := Conforms codec) ⟨rfl, ?_, ?_, ?_, ?_⟩
      (fun _ _ _ _ _ h hc heffect => setUp_effect h hc heffect) h
    · rintro ⟨req, hreq⟩
      cases hreq
    · exact fun hoffer => by cases hoffer
    · exact fun _ _ => .handshake rfl
    · exact fun _ hest => by cases hest
  refine ⟨(paired_after codec config calls).pairs, fun m hm => ?_, ?_, ?_⟩
  · cases hest : (after codec config calls).established with
    | false =>
      rw [hidentity.fresh hest] at hm
      cases hm
    | true =>
      obtain ⟨hzero, hall⟩ := hidentity.identified hest
      exact ⟨hall m hm, hzero⟩
  · intro before now data rest heq t m hread hnot
    exact faulted_of_readBy hread ((h before _ rest heq).headed t m hread) hnot
  · intro hstarted hopen hnone
    refine hsetUp.armed (hsetUp.started hstarted) hopen ?_
    by_contra hest
    obtain ⟨m, hm, hname⟩ := hsetUp.answered hopen (by simpa using hest)
    exact hnone m hm hname

/-- One frame is one message. -/
theorem reads_single {codec : Codec} {now : Instant} {s t : Evcc} {m m' : Message}
    {conn : Connection} (h : Reads codec now s t m')
    (hnext : s.conn.nextMessage codec = (.ok (some m), conn)) (hframes : conn.frames = []) :
    m' = m := by
  cases h with
  | here hnext' =>
    rw [hnext] at hnext'
    cases hnext'
    rfl
  | later hnext' hdispatch hopen rest =>
    rw [hnext] at hnext'
    cases hnext'
    have hleft := frames_dispatch { s with conn := conn } now m
    rw [hdispatch] at hleft
    cases rest with
    | here hnext' =>
      rw [Connection.nextMessage_of_nil (hleft.trans hframes)] at hnext'
      cases hnext'
    | later hnext' _ _ _ =>
      rw [Connection.nextMessage_of_nil (hleft.trans hframes)] at hnext'
      cases hnext'

theorem conforms_of_single {codec : Codec} {s : Evcc} {now : Instant} {data : List UInt8}
    {m : Message} {conn : Connection}
    (hnext : (s.conn.receive data).2.nextMessage codec = (.ok (some m), conn))
    (hframes : conn.frames = []) (hm : m.generation ≠ none → m.sessionId ≠ none) :
    Conforms codec s (.handleInput now data) := by
  refine ⟨fun t m' hread => ?_, fun transfer h => by cases h⟩
  obtain ⟨hopen, conn', hreceive, hreads⟩ := hread
  rw [hreceive] at hnext
  have hsame := reads_single hreads hnext hframes
  subst hsame
  exact fun _ _ _ => hm

/-- The first exchange of a -2 session, with the answer inside `V2G_Message`. -/
theorem takes_what_it_asked_for_sessionSetup :
    Takes Message.Golden.exchange goldenVehicle
        (goldenSetUp ++ [goldenAnswer Message.Golden.sessionSetupRes])
      ∧ responsesOf (history Message.Golden.exchange goldenVehicle
          (goldenSetUp ++ [goldenAnswer Message.Golden.sessionSetupRes]))
        = [Message.Golden.sessionSetup] := by
  refine ⟨takes_what_it_asked_for _ _ _ ?_, by decide +kernel⟩
  refine (along_concat _ _).mpr ⟨?_, ?_⟩
  · refine (along_cons _ _).mpr ⟨⟨fun _ _ h => h.elim, fun _ h => by cases h⟩, ?_⟩
    refine (along_cons _ _).mpr ⟨?_, ?_⟩
    · exact conforms_of_single (m := .appProtocolRes ⟨.okSuccessfulNegotiation, some 1⟩)
        (Prod.ext (by decide +kernel) rfl) (by decide +kernel) (by decide)
    · exact (along_cons _ _).mpr ⟨⟨fun _ _ h => h.elim, fun _ h => by cases h⟩, along_nil⟩
  · exact conforms_of_single (m := Message.Golden.sessionSetup)
      (Prod.ext (by decide +kernel) rfl) (by decide +kernel) (by decide)

/-- The same answer as a document of its own has no header, and is surfaced all the same: the
session has its `SessionSetupRes` and no id. -/
theorem bare_response_surfaced :
    ¬ Takes Message.Golden.exchange goldenVehicle
      (goldenSetUp ++ [goldenAnswer Message.Golden.bareSessionSetupRes]) := by
  intro h
  have hmem : Message.Golden.bareSessionSetup
      ∈ responsesOf (history Message.Golden.exchange goldenVehicle
        (goldenSetUp ++ [goldenAnswer Message.Golden.bareSessionSetupRes])) := by
    decide +kernel
  have hid := (h.identity _ hmem).1
  cases hid

end Iso15118.Evcc
