import Iso15118.Secc.Close
import Iso15118.Secc.Identity

/-!
# Every request gets an answer

Two notions of a request meet in `Secc::dispatch`: a message is one by its element name, and the
sequencers read one out of it by its schema and its fields. They coincide on every message with a
header, but for one: a `ServiceSelectionReq` for a service that is not an energy transfer
(**`UnknownService`**) is a request by name and none to the -20 sequencer. Where they coincide the
vehicle is answered; that one takes the session down with it. **`answerable_iff`**.
-/

namespace Iso15118.Session.Iso20

/-- The services of the table are 1 to 11. -/
theorem isSome_fromServiceId (id : UInt16) :
    (EnergyTransfer.fromServiceId id).isSome = true ↔ 1 ≤ id ∧ id ≤ 11 := by
  unfold EnergyTransfer.fromServiceId Service.fromServiceId
  rw [Option.isSome_map]
  constructor
  · intro h
    by_contra hout
    have hne : ∀ n : UInt16, 1 ≤ n → n ≤ 11 → id ≠ n := by
      rintro n hlow hhigh rfl
      exact hout ⟨hlow, hhigh⟩
    simp [hne] at h
  · intro h
    have hid : id = 1 ∨ id = 2 ∨ id = 3 ∨ id = 4 ∨ id = 5 ∨ id = 6 ∨ id = 7 ∨ id = 8 ∨ id = 9
        ∨ id = 10 ∨ id = 11 := by
      simp only [UInt16.le_iff_toNat_le, ← UInt16.toNat_inj] at h ⊢
      simp at h ⊢
      omega
    rcases hid with rfl | rfl | rfl | rfl | rfl | rfl | rfl | rfl | rfl | rfl | rfl <;> rfl

end Iso15118.Session.Iso20

namespace Iso15118.Secc

open Iso15118.Lib Iso15118.Session
open Iso15118.Message (Codec)
open Iso15118.Message.Golden (frame header sessionStopReq serviceSelectionReq)

/-- A `ServiceSelectionReq` for a service that is not an energy transfer of the -20 table. -/
def UnknownService (m : Message) : Prop :=
  ∃ id header rest, m = .iso20 (.request (.serviceSelection id) header rest)
    ∧ ¬ (1 ≤ id ∧ id ≤ 11)

/-! ## The two notions of a request

Message by message: a name that ends as a request's does, and the fields that the sequencer
needs. They are compared document type by document type. -/

/-- A -20 document that has a header and the name of a request is one. -/
theorem eq_request_of_header {Req Res Other : Type} [Message.Element Req] [Message.Element Res]
    [Message.Element Other] {doc : Message.Iso20.Document Req Res Other}
    (hheader : (Message.headerSessionId doc.header).isSome = true)
    (hreq : Message.endsWith doc.name "Req" = true) : ∃ e h rest, doc = .request e h rest := by
  cases doc with
  | request e h rest => exact ⟨e, h, rest, rfl⟩
  | response e h code rest =>
    rw [Message.Iso20.Document.name, Message.endsWith_req_append_res] at hreq
    cases hreq
  | other e rest => cases hheader

theorem isSome_ofCommon (e : Message.Iso20.Messages.Req) (h : Message.Iso20.MessageHeader)
    (rest : Message.Rest) :
    (Iso20.Request.ofCommon (.request e h rest)).isSome = true
      ↔ ¬ UnknownService (.iso20 (.request e h rest)) := by
  cases e with
  | serviceSelection id =>
    simp only [Iso20.Request.ofCommon, Option.isSome_map, Iso20.isSome_fromServiceId]
    constructor
    · rintro hknown ⟨id', h', rest', heq, hunknown⟩
      cases heq
      exact hunknown hknown
    · intro hknown
      by_contra hunknown
      exact hknown ⟨id, h, rest, rfl, hunknown⟩
  | _ => exact iff_of_true rfl fun ⟨_, _, _, heq, _⟩ => by cases heq

/-- Of the older generation the flow knows every request with an id. -/
theorem isSome_iso2_of {m : Message} (hm : m.generation = some .iso2)
    (hreq : m.isRequest = true) (hid : m.sessionId.isSome = true) :
    (Iso2.Request.of m).isSome = true := by
  cases m with
  | iso2 doc =>
    cases doc with
    | v2gMessage header body =>
      cases body with
      | none =>
        exact absurd (show Message.endsWith "V2G_Message" "Req" = true from hreq) (by decide)
      | some choice =>
        cases choice with
        | request e rest => cases e <;> rfl
        | response e code rest =>
          have hname : (Message.iso2 (.v2gMessage header (some (.response e code rest)))).isRequest
              = false := Message.endsWith_req_append_res _
          rw [hname] at hreq
          cases hreq
        | bodyElement rest =>
          exact absurd (show Message.endsWith "BodyElement" "Req" = true from hreq) (by decide)
    | body choice => cases hid
    | other e rest => cases hid
  | _ => cases hm

/-- The sets of the services hold nothing the sequencer does not know. -/
theorem known_iff {m : Message} (hof : (Iso20.Request.of m).isSome = true)
    (hm : ∀ doc, m ≠ .iso20 doc) :
    (Iso20.Request.of m).isSome = true ↔ ¬ UnknownService m := by
  refine iff_of_true hof ?_
  rintro ⟨id, header, rest, rfl, -⟩
  exact hm _ rfl

/-- Of the newer generation the flow knows every request with an id, but for the unknown services.
-/
theorem isSome_iso20_of {m : Message} (hm : m.generation = some .iso20)
    (hreq : m.isRequest = true) (hid : m.sessionId.isSome = true) :
    (Iso20.Request.of m).isSome = true ↔ ¬ UnknownService m := by
  cases m with
  | appProtocolReq req => cases hm
  | appProtocolRes res => cases hm
  | iso2 doc => cases hm
  | iso20 doc =>
    obtain ⟨e, h, rest, rfl⟩ := eq_request_of_header hid hreq
    exact isSome_ofCommon e h rest
  | iso20Ac doc =>
    obtain ⟨e, h, rest, rfl⟩ := eq_request_of_header hid hreq
    exact known_iff (by cases e <;> rfl) (by simp)
  | iso20Dc doc =>
    obtain ⟨e, h, rest, rfl⟩ := eq_request_of_header hid hreq
    exact known_iff (by cases e <;> rfl) (by simp)
  | iso20Wpt doc =>
    obtain ⟨e, h, rest, rfl⟩ := eq_request_of_header hid hreq
    exact known_iff (by cases e <;> rfl) (by simp)
  | iso20Acdp doc =>
    obtain ⟨e, h, rest, rfl⟩ := eq_request_of_header hid hreq
    exact known_iff (by cases e <;> rfl) (by simp)
  | iso20AcDerIec doc =>
    obtain ⟨e, h, rest, rfl⟩ := eq_request_of_header hid hreq
    exact known_iff (by cases e <;> rfl) (by simp)
  | iso20AcDerSae doc =>
    obtain ⟨e, h, rest, rfl⟩ := eq_request_of_header hid hreq
    exact known_iff (by cases e <;> rfl) (by simp)

/-- **Where the two notions coincide**: the flow reads every request with a header that its
connection can read, but a service selection it does not know. -/
theorem reads_iff {flow : Flow} {m : Message} (hm : m.generation = some flow.protocol)
    (hreq : m.isRequest = true) (hid : m.sessionId.isSome = true) :
    flow.reads m = true ↔ ¬ UnknownService m := by
  cases flow with
  | iso2 s =>
    refine iff_of_true (isSome_iso2_of hm hreq hid) ?_
    rintro ⟨id, header, rest, rfl, -⟩
    cases hm
  | iso20 s => exact isSome_iso20_of hm hreq hid

/-! ## What becomes of it

The frame is the next one read, so the call comes to dispatching it. Whether it is surfaced is
then read off the cases of `Dispatched`. -/

/-- `e` is `m` surfaced: to be answered, refused with a response code, or overdue with one. -/
def Event.Surfaces (e : Event) (m : Message) : Prop :=
  e = .request m ∨ (∃ code reason, e = .refused m code reason)
    ∨ ∃ code phase, e = .overdue m code phase

/-- The input is taken, `m` is surfaced, and the session does not end over a fault. -/
structure Answerable (codec : Codec) (s : Secc) (now : Instant) (data : List UInt8) (m : Message) :
    Prop where
  ok : (s.handleInput codec now data).1 = .ok ()
  surfaced : ∃ e ∈ s.emits codec (.handleInput now data), e.Surfaces m
  notFatal : .closed .fatal ∉ s.emits codec (.handleInput now data)

/-- A request dispatched without a fault is surfaced. -/
theorem Dispatched.surfaces {s s' : Secc} {m : Message} {evs : List Event}
    (h : Dispatched s m evs (.ok (), s')) (hm : ∀ req, m ≠ .appProtocolReq req) :
    s'.events = s.events ++ evs ∧ (∃ e ∈ evs, e.Surfaces m) ∧ .closed .fatal ∉ evs := by
  cases h with
  | rejected req frame timers hreq hflow => exact absurd hreq (hm req)
  | agreed req protocol set flow frame timers hreq hflow hnew hsetup => exact absurd hreq (hm req)
  | unknown due timers hm' hreq hest hid =>
    exact ⟨rfl, ⟨_, List.mem_cons_self .., .inr (.inl ⟨_, _, rfl⟩)⟩, by simp⟩
  | accepted flow flow' due phase timers hreq hid hflow haccept hsetup =>
    exact ⟨rfl, ⟨_, List.mem_cons_self .., .inl rfl⟩, by simp⟩
  | refused flow e event due overdue timers hreq hid hflow haccept hevent =>
    rcases hevent with rfl | ⟨phase, rfl⟩
    · exact ⟨rfl, ⟨_, List.mem_cons_self .., .inr (.inl ⟨_, _, rfl⟩)⟩, by simp⟩
    · exact ⟨rfl, ⟨_, List.mem_cons_self .., .inr (.inr ⟨_, _, rfl⟩)⟩, by simp⟩

/-- What input does to an open session with a flow and nothing to answer, when it frames a
message: the message is dispatched. -/
theorem handleInput_eq {codec : Codec} {s : Secc} (now : Instant) {data : List UInt8}
    {m : Message} {conn conn' : Connection} (hopen : s.closed = false)
    (hflow : s.flow.isSome = true) (hidle : s.outstanding = none)
    (hreceive : s.conn.receive data = (.ok (), conn))
    (hnext : conn.nextMessage codec = (.ok (some m), conn')) :
    s.handleInput codec now data
      = closeOnError ({ s with conn := conn' }.dispatch codec now m) := by
  have hread : Reads codec { s with conn := conn } m conn' := ⟨hopen, hidle, hnext⟩
  rw [handleInput, if_neg (by simp [hopen]), hreceive]
  dsimp only
  rw [pump_of_reads now hread hflow]

/-- What the flow accepts or refuses, it has read. -/
theorem reads_of_accept {flow flow' : Flow} {m : Message} {answer : Except FlowError Unit}
    (h : flow.accept m = (answer, flow')) (hanswer : answer ≠ .error .notARequest) :
    flow.reads m = true := by
  rcases flow.accept_cases m with ⟨-, hcase⟩ | ⟨hreads, -⟩ | ⟨hreads, -⟩
  · rw [hcase] at h
    cases h
    exact absurd rfl hanswer
  · exact hreads
  · exact hreads

/-- A request that carries the id is dispatched without a fault exactly when the flow reads it. -/
theorem dispatched_ok_iff {s s' : Secc} {m : Message} {evs : List Event} {flow : Flow}
    {result : Except SeccError Unit} (h : Dispatched s m evs (result, s'))
    (hflow : s.flow = some flow) (hm : ∀ req, m ≠ .appProtocolReq req)
    (hreq : m.isRequest = true) (hid : s.carriesTheSessionId m = true) :
    result = .ok () ↔ flow.reads m = true := by
  cases h with
  | fault e timers hfault =>
    refine iff_of_false (fun h => (by cases h)) ?_
    cases hfault with
    | handshakeFailed req => exact absurd rfl (hm req)
    | notARequest hno =>
      rw [hreq] at hno
      cases hno
    | beforeHandshake hnone =>
      rw [hflow] at hnone
      cases hnone
    | unread hflow' hreads =>
      -- the one fault a request that carries the id can still be
      rw [hflow] at hflow'
      cases hflow'
      simp [hreads]
  | rejected req frame timers hreq hnone => exact absurd hreq (hm req)
  | agreed req protocol set f frame timers hreq hnone hnew hsetup => exact absurd hreq (hm req)
  | unknown due timers hm' hreq' hest hno =>
    rw [hid] at hno
    cases hno
  | accepted f f' due phase timers hreq' hid' hflow' haccept hsetup =>
    rw [hflow] at hflow'
    cases hflow'
    exact iff_of_true rfl (reads_of_accept haccept (by simp))
  | refused f e event due overdue timers hreq' hid' hflow' haccept hevent =>
    rw [hflow] at hflow'
    cases hflow'
    exact iff_of_true rfl (reads_of_accept haccept (by simp))

/-- In an open session a request with the right id is answerable unless it asks for a service the
station has no name for. -/
theorem answerable_of_open {codec : Codec} {s : Secc} {now : Instant} {data : List UInt8}
    {m : Message} {conn conn' : Connection} (hs : Synced s) (hopen : s.closed = false)
    (hflow : s.flow.isSome = true) (hidle : s.outstanding = none)
    (hreceive : s.conn.receive data = (.ok (), conn))
    (hnext : conn.nextMessage codec = (.ok (some m), conn')) (hreq : m.isRequest = true)
    (hid : s.carriesTheSessionId m = true) :
    Answerable codec s now data m ↔ ¬ UnknownService m := by
  obtain ⟨flow, hsome⟩ := Option.isSome_iff_exists.mp hflow
  have hread : Reads codec { s with conn := conn } m conn' := ⟨hopen, hidle, hnext⟩
  -- the message was read in the generation the handshake settled
  have hgeneration : m.generation = some flow.protocol := by
    have hconn := s.conn.sameButInput_receive data
    rw [hreceive] at hconn
    rw [hread.generation, ← hs.protocol flow hsome]
    exact hconn.protocol
  -- so it is none of the handshake's, and it carries an id
  have hm : ∀ req, m ≠ .appProtocolReq req := by
    rintro req rfl
    cases hgeneration
  have hhas : m.sessionId.isSome = true := by
    rw [(carriesTheSessionId_iff.mp hid).1]
    rfl
  obtain ⟨evs, hdispatched⟩ := dispatched_dispatch codec (s := { s with conn := conn' }) now m hopen
  have hinput := handleInput_eq now hopen hflow hidle hreceive hnext
  generalize { s with conn := conn' }.dispatch codec now m = out at hdispatched hinput
  obtain ⟨result, s'⟩ := out
  -- the input is taken exactly when the flow reads the message
  have hok := dispatched_ok_iff hdispatched hsome hm hreq hid
  rw [← reads_iff hgeneration hreq hhas, ← hok]
  cases result with
  | error e =>
    refine iff_of_false (fun h => ?_) (fun h => (by cases h))
    have herror := h.ok
    rw [hinput] at herror
    cases herror
  | ok _ =>
    obtain ⟨hevents, hsurfaces, hfatal⟩ := hdispatched.surfaces hm
    have hemits : s.emits codec (.handleInput now data) = evs := by
      refine emits_eq ?_
      show (s.handleInput codec now data).2.events = _
      rw [hinput]
      exact hevents
    refine iff_of_true ⟨?_, ?_, ?_⟩ rfl
    · rw [hinput]
      rfl
    · rw [hemits]
      exact hsurfaces
    · rw [hemits]
      exact hfatal

/-- **Every request is answerable**, in every session whose handshake has settled and that has
nothing to answer, for every input that frames it: exactly while the session is open and the
request is not a service selection the sequencer does not know. -/
theorem answerable_iff (codec : Codec) (config : SeccConfig) (calls : List Call) (now : Instant)
    (data : List UInt8) (m : Message) (conn conn' : Connection)
    (hflow : (after codec config calls).flow.isSome = true)
    (hidle : (after codec config calls).outstanding = none)
    (hreceive : (after codec config calls).conn.receive data = (.ok (), conn))
    (hnext : conn.nextMessage codec = (.ok (some m), conn')) (hreq : m.isRequest = true)
    (hid : (after codec config calls).carriesTheSessionId m = true) :
    Answerable codec (after codec config calls) now data m
      ↔ (after codec config calls).closed = false ∧ ¬ UnknownService m := by
  cases hclosed : (after codec config calls).closed with
  | false =>
    rw [answerable_of_open (synced_after codec config calls) hclosed hflow hidle hreceive hnext
      hreq hid]
    exact ⟨fun h => ⟨rfl, h⟩, fun h => h.2⟩
  | true =>
    refine iff_of_false (fun h => ?_) (fun h => (by cases h.1))
    obtain ⟨e, he, -⟩ := h.surfaced
    rw [(emits_of_closed codec _ hclosed).1] at he
    cases he

/-- The handshake of a vehicle that offers -20. -/
def goldenIso20 : List Call :=
  [.opened (.fromMillis 0),
   .handleInput (.fromMillis 100)
     (frame .exiEncodedV2gMessage Message.Golden.reqTwo)]

/-- A `SessionStopReq` right after the handshake is out of sequence, and is refused. -/
theorem answerable_iff_sessionStop :
    Answerable Message.Golden.codec (after Message.Golden.codec goldenConfig goldenIso20)
      (.fromMillis 200) (frame .part20Main sessionStopReq)
      (.iso20 (.request (.sessionStop .terminate) header [])) :=
  (answerable_iff Message.Golden.codec goldenConfig goldenIso20 (.fromMillis 200)
    (frame .part20Main sessionStopReq) (.iso20 (.request (.sessionStop .terminate) header []))
    { (after Message.Golden.codec goldenConfig goldenIso20).conn with
      frames := [(.part20Main, sessionStopReq)] }
    (after Message.Golden.codec goldenConfig goldenIso20).conn
    (by decide +kernel) (by decide +kernel) (by decide +kernel) (by decide +kernel)
    (by decide +kernel) (by decide +kernel)).mpr
    ⟨by decide +kernel, fun ⟨_, _, _, heq, _⟩ => by cases heq⟩

/-- The same session, and a `ServiceSelectionReq` for a value-added service in its place: the frame
is the next thing read, it is a request, it carries the id, and the session is torn down over it. -/
theorem not_answerable_serviceSelection :
    (after Message.Golden.codec goldenConfig goldenIso20).flow.isSome = true
      ∧ (after Message.Golden.codec goldenConfig goldenIso20).outstanding = none
      ∧ (after Message.Golden.codec goldenConfig goldenIso20).closed = false
      ∧ (after Message.Golden.codec goldenConfig goldenIso20).conn.receive
          (frame .part20Main serviceSelectionReq)
        = (.ok (), { (after Message.Golden.codec goldenConfig goldenIso20).conn with
            frames := [(.part20Main, serviceSelectionReq)] })
      ∧ Message.decode Message.Golden.codec (some .iso20) .part20Main serviceSelectionReq
        = .ok (.iso20 (.request (.serviceSelection 65) header [0x01]))
      ∧ (Message.iso20 (.request (.serviceSelection 65) header [0x01])).isRequest = true
      ∧ (after Message.Golden.codec goldenConfig goldenIso20).carriesTheSessionId
          (.iso20 (.request (.serviceSelection 65) header [0x01])) = true
      ∧ ¬ Answerable Message.Golden.codec (after Message.Golden.codec goldenConfig goldenIso20)
          (.fromMillis 200) (frame .part20Main serviceSelectionReq)
          (.iso20 (.request (.serviceSelection 65) header [0x01])) := by
  refine ⟨by decide +kernel, by decide +kernel, by decide +kernel, by decide +kernel,
    by decide +kernel, by decide +kernel, by decide +kernel, fun h => ?_⟩
  have hfatal := h.notFatal
  exact absurd hfatal (by decide +kernel)

end Iso15118.Secc
