import Iso15118.Message.Pairing
import Iso15118.Secc.HalfDuplex
import Iso15118.Secc.Close
import Iso15118.Evcc.Answers

/-!
# Answers out of the request's message set

Both drivers pair a response with its request by name. The vehicle reads nothing but the generation
of the session, and with that the name settles the message set, except between the three AC sets:
`AC_ChargeParameterDiscovery` and `AC_ChargeLoop` are in all of them. The station does not look at
the generation of what its application answers with either.

**`answers_keep_the_message_set`** is what is left: of a run in which the answers to a request are
out of its own AC set, and a station's out of its generation, every response is out of the message
set of the request it answers. `answer_from_another_set` is a run of the other kind.
-/

namespace Iso15118

open Iso15118.Lib Iso15118.Session
open Iso15118.Message (Codec)

/-! ## The vehicle

Names and the generation are checked by the vehicle, and among the AC sets they do not tell. What
it is asked for a call is therefore about those sets alone. -/

namespace Evcc

/-- A response surfaced is out of the message set of the request that waits. -/
def InSet (before : List Act) (a : Act) : Prop :=
  ∀ m, a.response? = some m → ∃ r, Pending before r ∧ m.payloadType = r.payloadType

/-- What is asked of a call: an answer it reads to the request that waits is out of the AC set the
request is from, or out of none if the request is. -/
def KeepsAcSet (codec : Codec) (config : EvccConfig) (before : List Call) (c : Call) : Prop :=
  ∀ t m, (after codec config before).ReadBy codec c t m →
    ∀ r, Pending (history codec config before) r → t.outstanding = some r.name →
      m.answers r.name = true → m.acSet = r.acSet

/-- While a call runs that has `log₀` behind it: the answers so far have kept to the message set,
and the request that waits was sent before the call, in the generation that is read now. -/
structure SetKept (log₀ log : List Act) (s : Evcc) : Prop where
  sets : Along InSet log
  owed : ∀ name, s.outstanding = some name →
    ∃ r, Pending log₀ r ∧ Pending log r ∧ r.name = name ∧ r.generation = s.conn.protocol

theorem SetKept.quiet {log₀ log acts : List Act} {s s' : Evcc} (h : SetKept log₀ log s)
    (hq : Quiet acts) (howed : s'.outstanding = s.outstanding ∨ s'.outstanding = none)
    (hprotocol : s'.outstanding ≠ none → s'.conn.protocol = s.conn.protocol) :
    SetKept log₀ (log ++ acts) s' where
  sets := along_append_of_quiet h.sets fun a ha => (hq a ha).2
  owed name hname := by
    rcases howed with howed | howed
    · obtain ⟨r, hr₀, hr, hrname, hgen⟩ := h.owed name (howed.symm.trans hname)
      refine ⟨r, hr₀, hr.append hq, hrname, ?_⟩
      rw [hprotocol (by simp [hname])]
      exact hgen
    · rw [howed] at hname
      cases hname

/-- An answer of the request's own set leaves every pair of the record within one set. -/
theorem SetKept.answered {log₀ log : List Act} {s s' : Evcc} {m : Message} {expected : String}
    {more : List Event} (h : SetKept log₀ log s) (hans : Answers s m expected)
    (hgen : m.generation = s.conn.protocol)
    (hset : ∀ r, Pending log₀ r → s.outstanding = some r.name → m.answers r.name = true →
      m.acSet = r.acSet)
    (hmore : ∀ event ∈ more, ∀ m', event ≠ .response m') (hnone : s'.outstanding = none) :
    SetKept log₀ (log ++ (.response m :: more).map .event) s' where
  sets := by
    obtain ⟨r, hr₀, hr, hrname, hrgen⟩ := h.owed expected hans.owed
    have howed : s.outstanding = some r.name := by
      rw [hrname]
      exact hans.owed
    have hpairs : m.answers r.name = true := by
      rw [hrname]
      exact hans.pairs
    have hsame : m.payloadType = r.payloadType :=
      (Message.payloadType_eq_iff hpairs (hgen.trans hrgen.symm)).mpr (hset r hr₀ howed hpairs)
    exact along_append_of_answer h.sets ⟨r, hr, hsame⟩ hmore
  owed name hname := by
    rw [hnone] at hname
    cases hname

theorem setKept_step {R : Evcc → Message → Prop} {log₀ log acts : List Act} {s s' : Evcc}
    (hR : ∀ t m, R t m → ∀ r, Pending log₀ r → t.outstanding = some r.name →
      m.answers r.name = true → m.acSet = r.acSet)
    (h : SetKept log₀ log s) (hstep : Step R s acts s') : SetKept log₀ (log ++ acts) s' := by
  cases hstep with
  | received conn hopen hconn => exact h.quiet quiet_nil (.inl rfl) fun _ => hconn.protocol
  | faulted conn answeredAt hopen hconn =>
    exact h.quiet (quiet_event (by simp)) (.inr rfl) fun hne => absurd rfl hne
  | read now hopen hread hgen hdispatched =>
    cases hdispatched with
    | rejected res set hm hans =>
      exact h.quiet (quiet_event (by simp)) (.inr rfl) fun hne => absurd rfl hne
    | agreed res protocol set flow hm hans hnew =>
      exact h.quiet (quiet_event (by simp)) (.inr rfl) fun hne => absurd rfl hne
    | surfaced more timers hm hans hid hmore hongoing hsetup =>
      refine h.answered hans hgen (hR _ _ hread) (fun event hevent m' heq => ?_) rfl
      rcases hmore with hmore | hmore <;> simp_all
    | ended why hm hans hid hwhy => exact h.answered hans hgen (hR _ _ hread) (by simp) rfl

/-- Between calls. -/
structure InSets (log : List Act) (s : Evcc) : Prop where
  agrees : Agrees s
  kept : SetKept log log s

/-- What the vehicle does in one call keeps the message sets paired, if each answer it reads is of
its request's set. -/
theorem setKept_effect {codec : Codec} {log acts : List Act} {s s' : Evcc} {c : Call}
    (hagrees : Agrees s) (h : SetKept log log s)
    (hc : ∀ t m, s.ReadBy codec c t m → ∀ r, Pending log r → t.outstanding = some r.name →
      m.answers r.name = true → m.acSet = r.acSet)
    (heffect : Effect codec s c acts s') :
    SetKept (log ++ acts) (log ++ acts) s' := by
  -- a call that neither asks nor reads leaves the request that waits where it is
  have hquiet : ∀ {acts : List Act} {t : Evcc}, Quiet acts → t.outstanding = s.outstanding →
      t.conn.protocol = s.conn.protocol → SetKept (log ++ acts) (log ++ acts) t := by
    intro acts t hq howed hprotocol
    have hkept := h.quiet hq (.inl howed) fun _ => hprotocol
    refine ⟨hkept.sets, fun name hname => ?_⟩
    obtain ⟨r, -, hr, hrname, hgen⟩ := hkept.owed name hname
    exact ⟨r, hr, hr, hrname, hgen⟩
  have hsent : ∀ {r : Message}, Along InSet (log ++ [.sent r]) := by
    intro r
    refine along_append_of_quiet h.sets fun a ha => ?_
    rw [List.mem_singleton.mp ha]
    rfl
  cases heffect with
  -- the handshake is the first request, and has no set
  | started now frame hidle hflow hopen =>
    refine ⟨hsent, fun name hname => ⟨_, pending_sent log _, pending_sent log _, ?_, ?_⟩⟩
    · exact Option.some.inj hname
    · -- the handshake is of no generation, and none has been agreed on
      show none = s.conn.protocol
      rw [hagrees, hflow]
      rfl
  -- a request waits from now on, of the generation the flow is in
  | asked now flow flow' frame phase timers hopen hidle hreq hflow haccept hbudget =>
    refine ⟨hsent, fun name hname => ⟨_, pending_sent log _, pending_sent log _, ?_, ?_⟩⟩
    · exact (Message.sameButHeader_setSessionId _ _).name.trans (Option.some.inj hname)
    · show _ = s.conn.protocol
      rw [hagrees, hflow, Flow.generation_of_accept haccept]
      rfl
  | refused hasks => exact hquiet quiet_nil rfl rfl
  | polled => exact hquiet quiet_nil rfl rfl
  | taken => exact hquiet quiet_nil rfl rfl
  | resumed flow flow' hflow hresume => exact hquiet quiet_nil rfl rfl
  | notResumed => exact hquiet quiet_nil rfl rfl
  | ticked now hexpired =>
    cases hexpired with
    | quiet hdue => exact hquiet quiet_nil rfl rfl
    | timedOut hopen hd hle => exact hquiet (quiet_event (by simp)) rfl rfl
    | past timers hclosed htimers => exact hquiet quiet_nil rfl rfl
  -- the bytes of one call are read a step at a time
  | driven now data hsteps =>
    have hkept : SetKept log (log ++ acts) s' :=
      hsteps.invariant (I := SetKept log) (fun _ _ _ _ h hstep => setKept_step hc h hstep) h
    refine ⟨hkept.sets, fun name hname => ?_⟩
    obtain ⟨r, -, hr, hrname, hgen⟩ := hkept.owed name hname
    exact ⟨r, hr, hr, hrname, hgen⟩

theorem inSets_after {codec : Codec} {config : EvccConfig} {calls : List Call}
    (h : Along (KeepsAcSet codec config) calls) :
    InSets (history codec config calls) (after codec config calls) := by
  refine h.induction (motive := fun calls =>
    InSets (history codec config calls) (after codec config calls))
    ⟨rfl, along_nil, fun _ h => by cases h⟩ ?_
  intro calls c ih hc
  rw [history_concat, after_concat]
  have heffect := effect_call codec (after codec config calls) c
  exact ⟨agrees_effect ih.agrees heffect, setKept_effect ih.agrees ih.kept hc heffect⟩

end Evcc

/-! ## The station

Its application answers with a message, and only its name is compared. So the generation has to
be asked for as well. -/

namespace Secc

/-- A response queued for a request is out of its message set. -/
def InSet (codec : Codec) (config : SeccConfig) (before : List Call) (c : Call) : Prop :=
  ∀ r response, Surfaced codec config before r →
    response ∈ (after codec config before).queues codec c → response.payloadType = r.payloadType

/-- What is asked of a call: the application answers a request in its generation, and out of the AC
set it is from, or out of none if the request is. -/
def KeepsAcSet (codec : Codec) (config : SeccConfig) (before : List Call) (c : Call) : Prop :=
  ∀ now response r, c = .respond now response → Surfaced codec config before r →
    response.generation = r.generation ∧ response.acSet = r.acSet

theorem respond_of_mem_queues {codec : Codec} {s : Secc} {c : Call} {response : Message}
    (h : response ∈ s.queues codec c) :
    ∃ now, c = .respond now response ∧ s.queues codec c = [response] := by
  cases c with
  | respond now response' =>
    cases hanswer : (s.answer codec response').1 with
    | ok _ =>
      simp only [queues, hanswer, List.mem_singleton] at h ⊢
      rw [h]
      exact ⟨now, rfl, rfl⟩
    | error e =>
      simp only [queues, hanswer] at h
      cases h
  | opened now | handleInput now data | joinSession sessionId | resume sessionId transfer
  | handleTimeout now | pollEvent | takeTransmit => cases h

theorem inSet_call {codec : Codec} {config : SeccConfig} {before : List Call} {c : Call}
    (h : KeepsAcSet codec config before c) : InSet codec config before c := by
  intro r response hsurfaced hmem
  obtain ⟨now, rfl, hqueued⟩ := respond_of_mem_queues hmem
  obtain ⟨stem, hreq, hres⟩ :=
    (half_duplex codec config before).pairs r now response hsurfaced hqueued
  obtain ⟨hgen, hset⟩ := h now response r rfl hsurfaced
  exact (Message.payloadType_eq_iff (Message.answers_iff.mpr ⟨stem, hreq, hres⟩) hgen).mpr hset

end Secc

/-! ## Both

The two conditions, each over a run, and an answer that meets neither. -/

/-- **Answers keep to the message set**, where nothing is answered out of another of the AC sets or,
by a station, out of another generation: what the vehicle surfaces is out of the message set of the
request that was waiting, and what the station queues out of that of the request it surfaced. -/
theorem answers_keep_the_message_set (codec : Codec) :
    (∀ config calls, Along (Evcc.KeepsAcSet codec config) calls →
        Along Evcc.InSet (Evcc.history codec config calls))
      ∧ ∀ config calls, Along (Secc.KeepsAcSet codec config) calls →
        Along (Secc.InSet codec config) calls := by
  constructor
  · intro config calls h
    exact (Evcc.inSets_after h).kept.sets
  · intro config calls h before c rest heq
    exact Secc.inSet_call (h before c rest heq)

/-- One frame that is of no AC set, in a session that has not asked for one. -/
theorem Evcc.keepsAcSet_of_single {codec : Codec} {config : EvccConfig} {before : List Call}
    {now : Instant} {data : List UInt8} {m : Message} {conn : Connection}
    (hnext : ((after codec config before).conn.receive data).2.nextMessage codec
      = (.ok (some m), conn))
    (hframes : conn.frames = []) (hm : m.acSet = none)
    (hlog : ((history codec config before).all fun
      | .sent r => r.acSet.isNone
      | .event _ => true) = true) :
    KeepsAcSet codec config before (.handleInput now data) := by
  rintro t m' ⟨-, conn', hreceive, hreads⟩ r ⟨later, ⟨earlier, hsince, -⟩, -⟩ _ _
  rw [hreceive] at hnext
  have hsame := reads_single hreads hnext hframes
  subst hsame
  have hmem : Act.sent r ∈ history codec config before := by
    rw [hsince]
    simp
  have hr := List.all_eq_true.mp hlog _ hmem
  rw [hm, Option.isNone_iff_eq_none.mp hr]

/-- `SessionSetup` of -2, seen from both sides. -/
theorem answers_keep_the_message_set_sessionSetup :
    Along Evcc.InSet (Evcc.history Message.Golden.exchange Evcc.goldenVehicle
        (Evcc.goldenSetUp ++ [Evcc.goldenAnswer Message.Golden.sessionSetupRes]))
      ∧ Evcc.responsesOf (Evcc.history Message.Golden.exchange Evcc.goldenVehicle
          (Evcc.goldenSetUp ++ [Evcc.goldenAnswer Message.Golden.sessionSetupRes]))
        = [Message.Golden.sessionSetup]
      ∧ Along (Secc.InSet Message.Golden.exchange Secc.goldenConfig)
        (Secc.goldenSetup ++ [.respond (.fromMillis 300) Message.Golden.sessionSetup]) := by
  refine ⟨(answers_keep_the_message_set _).1 _ _ ?_, by decide +kernel,
    (answers_keep_the_message_set _).2 _ _ ?_⟩
  · refine (along_concat _ _).mpr ⟨?_, ?_⟩
    · refine (along_cons _ _).mpr ⟨fun _ _ h => h.elim, (along_cons _ _).mpr ⟨?_, ?_⟩⟩
      · exact Evcc.keepsAcSet_of_single (m := .appProtocolRes ⟨.okSuccessfulNegotiation, some 1⟩)
          (Prod.ext (by decide +kernel) rfl) (by decide +kernel) rfl (by decide +kernel)
      · exact (along_cons _ _).mpr ⟨fun _ _ h => h.elim, along_nil⟩
    · exact Evcc.keepsAcSet_of_single (m := Message.Golden.sessionSetup)
        (Prod.ext (by decide +kernel) rfl) (by decide +kernel) rfl (by decide +kernel)
  · refine (along_concat _ _).mpr ⟨?_, fun now response r hc hsurfaced => ?_⟩
    · have hnone : ∀ c ∈ Secc.goldenSetup, ∀ now response, c ≠ .respond now response := by
        simp [Secc.goldenSetup]
      intro before c rest heq now response r hc
      exact absurd hc (hnone c (by rw [heq]; simp) now response)
    · cases hc
      have hlast : Secc.Surfaced Message.Golden.exchange Secc.goldenConfig Secc.goldenSetup
          Message.Golden.sessionSetupRequest := by
        unfold Secc.Surfaced
        decide +kernel
      cases hsurfaced.symm.trans hlast
      exact ⟨rfl, rfl⟩

/-- **An answer out of another set.** `AC_ChargeParameterDiscoveryReq` of the AC set is answered
with the `AC_ChargeParameterDiscoveryRes` of AC DER IEC, and the vehicle surfaces it; a station
answers `SessionSetupReq` of -2 with the `SessionSetupRes` of -20, and it is queued. -/
theorem answer_from_another_set :
    ¬ Along Evcc.InSet (Evcc.history Message.Golden.exchange Evcc.goldenVehicleIso20
        (Evcc.goldenSetUpIso20 ++ [.resume ⟨.ac, false⟩,
          .request (.fromMillis 4) Message.Golden.chargeParametersAc,
          .handleInput (.fromMillis 5)
            (Message.Golden.frame .part20AcDerIec Message.Golden.chargeParametersResDerIec)]))
      ∧ ¬ Along (Secc.InSet Message.Golden.exchange Secc.goldenConfig)
        (Secc.goldenSetup ++ [.respond (.fromMillis 300) Message.Golden.sessionJoined]) := by
  constructor
  · intro h
    have hlog : Evcc.history Message.Golden.exchange Evcc.goldenVehicleIso20
          (Evcc.goldenSetUpIso20 ++ [.resume ⟨.ac, false⟩,
            .request (.fromMillis 4) Message.Golden.chargeParametersAc,
            .handleInput (.fromMillis 5)
              (Message.Golden.frame .part20AcDerIec Message.Golden.chargeParametersResDerIec)])
        = (Evcc.history Message.Golden.exchange Evcc.goldenVehicleIso20 Evcc.goldenSetUpIso20
            ++ [.sent Message.Golden.chargeParametersAc])
          ++ [.event (.response Message.Golden.chargeParametersDerIec)] := by
      decide +kernel
    rw [hlog] at h
    obtain ⟨-, hlast⟩ := (along_concat _ _).mp h
    obtain ⟨r, ⟨later, hsince, -⟩, hset⟩ := hlast _ rfl
    -- the request that waits is the one sent last
    obtain ⟨hr, -⟩ := since_concat_of_mark (by rfl) hsince
    cases hr
    cases hset
  · intro h
    obtain ⟨-, hlast⟩ := (along_concat _ _).mp h
    have hset := hlast Message.Golden.sessionSetupRequest Message.Golden.sessionJoined
      (by unfold Secc.Surfaced; decide +kernel) (by decide +kernel)
    cases hset

end Iso15118
