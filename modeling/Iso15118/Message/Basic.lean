import Iso15118.Exi.Basic
import Iso15118.V2gtp
import Iso15118.Message.Document

/-!
# One type over every message

`message.rs`: the handshake, ISO 15118-2 and each ISO 15118-20 message set behind one type. What a
message is — a request, the answer to one — is read off its element name, which the schemas keep
to `XxxReq` and `XxxRes`.

The generated EXI codecs are the parameter **`Codec`**: a reader for each document type and the
one writer. Nothing is assumed of them.
-/

namespace Iso15118.Message

open Iso15118.Exi (ExiError)
open Iso15118.Session (SessionId)
open Iso15118.V2gtp (PayloadType)

/-! ## Names

The suffixes that tell a request from a response. No name has both. -/

/-- `str::ends_with`. -/
def endsWith (s suffix : String) : Bool := suffix.toList.isSuffixOf s.toList

/-- `str::strip_suffix`. -/
def stripSuffix (s suffix : String) : Option String :=
  if endsWith s suffix then
    some (String.ofList (s.toList.take (s.toList.length - suffix.toList.length)))
  else none

theorem endsWith_iff {s suffix : String} :
    endsWith s suffix = true ↔ ∃ stem, s = stem ++ suffix := by
  unfold endsWith
  rw [List.isSuffixOf_iff_suffix]
  constructor
  · rintro ⟨stem, h⟩
    exact ⟨String.ofList stem, String.ext (by simpa using h.symm)⟩
  · rintro ⟨stem, rfl⟩
    exact ⟨stem.toList, by simp⟩

theorem stripSuffix_eq_some {s suffix stem : String} :
    stripSuffix s suffix = some stem ↔ s = stem ++ suffix := by
  unfold stripSuffix
  constructor
  · intro h
    split at h
    · next hends =>
      obtain ⟨stem', rfl⟩ := endsWith_iff.mp hends
      cases h
      exact congrArg (· ++ suffix) (String.ext (by simp))
    · cases h
  · rintro rfl
    rw [if_pos (endsWith_iff.mpr ⟨stem, rfl⟩)]
    exact congrArg some (String.ext (by simp))

/-- A response's name is not a request's. -/
@[simp] theorem endsWith_req_append_res (stem : String) :
    endsWith (stem ++ "Res") "Req" = false := by
  rw [Bool.eq_false_iff]
  intro h
  obtain ⟨stem', heq⟩ := endsWith_iff.mp h
  have hlist := congrArg String.toList heq
  rw [String.toList_append, String.toList_append] at hlist
  have hlast := (List.append_inj' hlist (by simp)).2
  simp at hlast

/-! ## Messages

What both engines ask of a message: what it is, what it answers, and the id in its header. -/

inductive Outcome where
  | ok
  | warning
  | failed
  deriving DecidableEq, Repr

/-- `Outcome::is_failure`. -/
def Outcome.isFailure : Outcome → Bool
  | .failed => true
  | _ => false

inductive MessageError where
  | exi (error : ExiError)
  | notAMessage (payloadType : PayloadType)
  | notForThisSession (payloadType : PayloadType) (protocol : Option Protocol)
  | noCodec (payloadType : PayloadType) (protocol : Option Protocol)
  deriving DecidableEq, Repr

end Iso15118.Message

namespace Iso15118

open Iso15118.Exi (ExiError)
open Iso15118.Message
open Iso15118.Session (SessionId)
open Iso15118.V2gtp (PayloadType)

inductive Message where
  | appProtocolReq (req : AppProtocol.Req)
  | appProtocolRes (res : AppProtocol.Res)
  | iso2 (doc : Iso2.Document)
  | iso20 (doc : Iso20.Messages.Document)
  | iso20Ac (doc : Iso20.Ac.Document)
  | iso20Dc (doc : Iso20.Dc.Document)
  | iso20Wpt (doc : Iso20.Wpt.Document)
  | iso20Acdp (doc : Iso20.Acdp.Document)
  | iso20AcDerIec (doc : Iso20.Ac.DerIecDocument)
  | iso20AcDerSae (doc : Iso20.Ac.DerSaeDocument)
  deriving DecidableEq, Repr

/-- The EXI codecs: how each document type is read, and how a message is written. -/
structure Message.Codec where
  appProtocolReq : List UInt8 → Except ExiError AppProtocol.Req
  appProtocolRes : List UInt8 → Except ExiError AppProtocol.Res
  iso2 : List UInt8 → Except ExiError Iso2.Document
  iso20 : List UInt8 → Except ExiError Iso20.Messages.Document
  iso20Ac : List UInt8 → Except ExiError Iso20.Ac.Document
  iso20Dc : List UInt8 → Except ExiError Iso20.Dc.Document
  iso20Wpt : List UInt8 → Except ExiError Iso20.Wpt.Document
  iso20Acdp : List UInt8 → Except ExiError Iso20.Acdp.Document
  iso20AcDerIec : List UInt8 → Except ExiError Iso20.Ac.DerIecDocument
  iso20AcDerSae : List UInt8 → Except ExiError Iso20.Ac.DerSaeDocument
  toVec : Message → Except ExiError (List UInt8)

namespace Message

/-- `Message::decode`. Which grammar reads the bytes is decided by the payload type and by what
the session has negotiated. -/
def decode (codec : Codec) (protocol : Option Protocol) (payloadType : PayloadType)
    (bytes : List UInt8) : Except MessageError Message :=
  if ¬ payloadType.isExi then .error (.notAMessage payloadType)
  else
    match payloadType, protocol with
    -- Before the handshake this is the handshake itself, one root or the other.
    | .exiEncodedV2gMessage, none =>
        match codec.appProtocolReq bytes with
        | .ok req => .ok (.appProtocolReq req)
        | .error _ => ((codec.appProtocolRes bytes).map .appProtocolRes).mapError .exi
    | .exiEncodedV2gMessage, some .iso2 => ((codec.iso2 bytes).map .iso2).mapError .exi
    | .part20Main, some .iso20 => ((codec.iso20 bytes).map .iso20).mapError .exi
    | .part20Ac, some .iso20 => ((codec.iso20Ac bytes).map .iso20Ac).mapError .exi
    | .part20Dc, some .iso20 => ((codec.iso20Dc bytes).map .iso20Dc).mapError .exi
    | .part20Wpt, some .iso20 => ((codec.iso20Wpt bytes).map .iso20Wpt).mapError .exi
    | .part20Acdp, some .iso20 => ((codec.iso20Acdp bytes).map .iso20Acdp).mapError .exi
    | .part20AcDerIec, some .iso20 =>
        ((codec.iso20AcDerIec bytes).map .iso20AcDerIec).mapError .exi
    | .part20AcDerSae, some .iso20 =>
        ((codec.iso20AcDerSae bytes).map .iso20AcDerSae).mapError .exi
    | _, _ =>
        -- A frame of another session is ignored; one of this session without a codec is not.
        if ¬ payloadType.belongsTo protocol then .error (.notForThisSession payloadType protocol)
        else .error (.noCodec payloadType protocol)

/-- The generation whose grammar reads the message; the handshake comes before one is agreed. -/
def generation : Message → Option Protocol
  | .appProtocolReq _ | .appProtocolRes _ => none
  | .iso2 _ => some .iso2
  | .iso20 _ | .iso20Ac _ | .iso20Dc _ | .iso20Wpt _ | .iso20Acdp _ | .iso20AcDerIec _
  | .iso20AcDerSae _ => some .iso20

theorem eq_of_map_mapError {α β ε ε' : Type} {x : Except ε α} {f : α → β} {g : ε → ε'} {b : β}
    (h : (x.map f).mapError g = .ok b) : ∃ a, b = f a := by
  cases x with
  | error e => cases h
  | ok a =>
    cases h
    exact ⟨a, rfl⟩

/-- What is decoded is of the generation the session has agreed on. -/
theorem generation_of_decode {codec : Codec} {protocol : Option Protocol}
    {payloadType : PayloadType} {bytes : List UInt8} {m : Message}
    (h : decode codec protocol payloadType bytes = .ok m) : m.generation = protocol := by
  unfold decode at h
  split at h
  · cases h
  · split at h
    · split at h
      · cases h
        rfl
      · obtain ⟨res, rfl⟩ := eq_of_map_mapError h
        rfl
    all_goals
      first
      | (obtain ⟨doc, rfl⟩ := eq_of_map_mapError h; rfl)
      | (split at h <;> cases h)

def payloadType : Message → PayloadType
  | .appProtocolReq _ | .appProtocolRes _ => .exiEncodedV2gMessage
  | .iso2 _ => .exiEncodedV2gMessage
  | .iso20 _ => .part20Main
  | .iso20Ac _ => .part20Ac
  | .iso20Dc _ => .part20Dc
  | .iso20Wpt _ => .part20Wpt
  | .iso20Acdp _ => .part20Acdp
  | .iso20AcDerIec _ => .part20AcDerIec
  | .iso20AcDerSae _ => .part20AcDerSae

/-- `Message::encode`. -/
def encode (codec : Codec) (m : Message) : Except MessageError (PayloadType × List UInt8) :=
  match codec.toVec m with
  | .error e => .error (.exi e)
  | .ok bytes => .ok (m.payloadType, bytes)

/-- What is written is read back, under the generation it belongs to. -/
def Codec.Lossless (codec : Codec) : Prop :=
  ∀ m bytes, codec.toVec m = .ok bytes → decode codec m.generation m.payloadType bytes = .ok m

/-- The handshake is answered in no more bytes than it takes to ask: the answer names nothing but
the number of an entry. -/
def Codec.AnswersOffers (codec : Codec) : Prop :=
  ∀ req payload res, codec.toVec (.appProtocolReq req) = .ok payload →
    res.responseCode.isOk = res.schemaId.isSome →
    (∀ id, res.schemaId = some id → ∃ e ∈ req.appProtocols, e.schemaId = id) →
      ∃ answer, codec.toVec (.appProtocolRes res) = .ok answer ∧ answer.length ≤ payload.length

/-- The element name. In -2 the message is inside the `V2G_Message` root; an empty body is legal
and no message at all. -/
def name : Message → String
  | .appProtocolReq _ => "supportedAppProtocolReq"
  | .appProtocolRes _ => "supportedAppProtocolRes"
  | .iso2 (.v2gMessage _ (some choice)) => choice.name
  | .iso2 (.v2gMessage _ none) => "V2G_Message"
  | .iso2 doc => doc.name
  | .iso20 doc => doc.name
  | .iso20Ac doc => doc.name
  | .iso20Dc doc => doc.name
  | .iso20Wpt doc => doc.name
  | .iso20Acdp doc => doc.name
  | .iso20AcDerIec doc => doc.name
  | .iso20AcDerSae doc => doc.name

/-- `classify`, inside `Message::outcome`. -/
def classify (isOk isWarning : Bool) : Outcome :=
  if isOk then .ok else if isWarning then .warning else .failed

/-- What the response code of a response amounts to. -/
def outcome : Message → Option Outcome
  | .appProtocolReq _ => none
  | .appProtocolRes res => some (if res.responseCode.isOk then .ok else .failed)
  | .iso2 (.v2gMessage _ body) =>
      (body.bind (·.responseCode)).map fun c => classify c.isOk c.isWarning
  | .iso2 _ => none
  | .iso20 doc => doc.responseCode.map fun c => classify c.isOk c.isWarning
  | .iso20Ac doc => doc.responseCode.map fun c => classify c.isOk c.isWarning
  | .iso20Dc doc => doc.responseCode.map fun c => classify c.isOk c.isWarning
  | .iso20Wpt doc => doc.responseCode.map fun c => classify c.isOk c.isWarning
  | .iso20Acdp doc => doc.responseCode.map fun c => classify c.isOk c.isWarning
  | .iso20AcDerIec doc => doc.responseCode.map fun c => classify c.isOk c.isWarning
  | .iso20AcDerSae doc => doc.responseCode.map fun c => classify c.isOk c.isWarning

/-- `Message::is_request`. -/
def isRequest (m : Message) : Bool := endsWith m.name "Req"

/-- `Message::answers`: the names pair. -/
def answers (m : Message) (request : String) : Bool :=
  match stripSuffix request "Req", stripSuffix m.name "Res" with
  | some a, some b => decide (a = b)
  | _, _ => false

/-- `header_session_id`. -/
def headerSessionId (header : Option Iso20.MessageHeader) : Option SessionId :=
  header.bind fun h => SessionId.fromSlice h.sessionId

/-- The session id of the header. -/
def sessionId : Message → Option SessionId
  | .appProtocolReq _ | .appProtocolRes _ => none
  | .iso2 (.v2gMessage header _) => SessionId.fromSlice header.sessionId
  | .iso2 _ => none
  | .iso20 doc => headerSessionId doc.header
  | .iso20Ac doc => headerSessionId doc.header
  | .iso20Dc doc => headerSessionId doc.header
  | .iso20Wpt doc => headerSessionId doc.header
  | .iso20Acdp doc => headerSessionId doc.header
  | .iso20AcDerIec doc => headerSessionId doc.header
  | .iso20AcDerSae doc => headerSessionId doc.header

/-- `set_header_session_id`: whether there is a header, and the message with the id in it. -/
def setHeaderSessionId {Req Res Other : Type} (wrap : Iso20.Document Req Res Other → Message)
    (doc : Iso20.Document Req Res Other) (id : SessionId) : Bool × Message :=
  match doc.header with
  | some h => (true, wrap (doc.setHeader { h with sessionId := id.toList }))
  | none => (false, wrap doc)

/-- `Message::set_session_id`: whether the message has a header to stamp, and the message with
the id stamped in. -/
def setSessionId (id : SessionId) : Message → Bool × Message
  | .appProtocolReq req => (false, .appProtocolReq req)
  | .appProtocolRes res => (false, .appProtocolRes res)
  | .iso2 (.v2gMessage header body) =>
      (true, .iso2 (.v2gMessage { header with sessionId := id.toList } body))
  | .iso2 doc => (false, .iso2 doc)
  | .iso20 doc => setHeaderSessionId .iso20 doc id
  | .iso20Ac doc => setHeaderSessionId .iso20Ac doc id
  | .iso20Dc doc => setHeaderSessionId .iso20Dc doc id
  | .iso20Wpt doc => setHeaderSessionId .iso20Wpt doc id
  | .iso20Acdp doc => setHeaderSessionId .iso20Acdp doc id
  | .iso20AcDerIec doc => setHeaderSessionId .iso20AcDerIec doc id
  | .iso20AcDerSae doc => setHeaderSessionId .iso20AcDerSae doc id

theorem answers_iff {m : Message} {request : String} :
    m.answers request = true ↔ ∃ stem, request = stem ++ "Req" ∧ m.name = stem ++ "Res" := by
  unfold answers
  constructor
  · intro h
    split at h
    · next a b ha hb =>
      obtain rfl := of_decide_eq_true h
      exact ⟨a, stripSuffix_eq_some.mp ha, stripSuffix_eq_some.mp hb⟩
    · cases h
  · rintro ⟨stem, hreq, hres⟩
    rw [stripSuffix_eq_some.mpr hreq, stripSuffix_eq_some.mpr hres]
    exact decide_eq_true rfl

theorem answers_append_req {m : Message} {stem : String} :
    m.answers (stem ++ "Req") = true ↔ m.name = stem ++ "Res" := by
  rw [answers_iff]
  constructor
  · rintro ⟨stem', hreq, hres⟩
    rw [hres, (String.append_left_inj "Req").mp hreq]
  · exact fun h => ⟨stem, rfl, h⟩

/-! ### What a stamp changes

Putting the session id into a header leaves the rest as it was, and whoever reads the message
finds that id. -/

/-- The same message under another header. -/
structure SameButHeader (m m' : Message) : Prop where
  name : m'.name = m.name
  payloadType : m'.payloadType = m.payloadType
  generation : m'.generation = m.generation
  outcome : m'.outcome = m.outcome

theorem sameButHeader_wrap {Req Res Other : Type}
    {wrap : Iso20.Document Req Res Other → Message}
    (hwrap : ∀ doc h, SameButHeader (wrap doc) (wrap (doc.setHeader h)))
    (doc : Iso20.Document Req Res Other) (id : SessionId) :
    SameButHeader (wrap doc) (setHeaderSessionId wrap doc id).2 := by
  unfold setHeaderSessionId
  split
  · exact hwrap doc _
  · exact ⟨rfl, rfl, rfl, rfl⟩

theorem sameButHeader_setSessionId (m : Message) (id : SessionId) :
    SameButHeader m (m.setSessionId id).2 := by
  cases m with
  | appProtocolReq req => exact ⟨rfl, rfl, rfl, rfl⟩
  | appProtocolRes res => exact ⟨rfl, rfl, rfl, rfl⟩
  | iso2 doc =>
    cases doc with
    | v2gMessage header body => cases body <;> exact ⟨rfl, rfl, rfl, rfl⟩
    | body choice => exact ⟨rfl, rfl, rfl, rfl⟩
    | other element rest => exact ⟨rfl, rfl, rfl, rfl⟩
  | iso20 doc | iso20Ac doc | iso20Dc doc | iso20Wpt doc | iso20Acdp doc | iso20AcDerIec doc
  | iso20AcDerSae doc =>
    refine sameButHeader_wrap (fun doc h => ?_) doc id
    cases doc <;> exact ⟨rfl, rfl, rfl, rfl⟩

/-- What a stamp leaves to be read: the id, if there was a header to put it in. -/
theorem sessionId_setSessionId (m : Message) (id : SessionId) :
    (m.setSessionId id).2.sessionId = if (m.setSessionId id).1 then some id else none := by
  have hslice := SessionId.fromSlice_toList id
  cases m with
  | appProtocolReq req => rfl
  | appProtocolRes res => rfl
  | iso2 doc =>
    cases doc with
    | v2gMessage header body => exact hslice
    | body choice => rfl
    | other element rest => rfl
  | iso20 doc | iso20Ac doc | iso20Dc doc | iso20Wpt doc | iso20Acdp doc | iso20AcDerIec doc
  | iso20AcDerSae doc =>
    cases doc with
    | request e header rest => exact hslice
    | response e header code rest => exact hslice
    | other e rest => rfl

/-! ## The vectors the tests are checked against

The bytes of `app_protocol.rs` and `tests/golden.rs`, and a codec that has them and nothing else. -/

namespace Golden

/-- `REQ_ISO2`: the handshake of a vehicle that offers -2. -/
def reqIso2 : List UInt8 :=
  [0x80, 0x00, 0xeb, 0xab, 0x93, 0x71, 0xd3, 0x4b, 0x9b, 0x79, 0xd1, 0x89, 0xa9, 0x89, 0x89, 0xc1,
   0xd1, 0x91, 0xd1, 0x91, 0x81, 0x89, 0x99, 0xd2, 0x6b, 0x9b, 0x3a, 0x23, 0x2b, 0x30, 0x02, 0x00,
   0x00, 0x04, 0x00, 0x40]

/-- `REQ_TWO`: the handshake of a vehicle that offers -20 and falls back on -2. -/
def reqTwo : List UInt8 :=
  [0x80, 0x00, 0xf3, 0xab, 0x93, 0x71, 0xd3, 0x4b, 0x9b, 0x79, 0xd3, 0x9b, 0xa3, 0x21, 0xd3, 0x4b,
   0x9b, 0x79, 0xd1, 0x89, 0xa9, 0x89, 0x89, 0xc1, 0xd1, 0x69, 0x91, 0x81, 0xd2, 0x22, 0x18, 0x01,
   0x00, 0x00, 0x28, 0x00, 0x01, 0xd7, 0x57, 0x26, 0xe3, 0xa6, 0x97, 0x36, 0xf3, 0xa3, 0x13, 0x53,
   0x13, 0x13, 0x83, 0xa3, 0x23, 0xa3, 0x23, 0x03, 0x13, 0x33, 0xa4, 0xd7, 0x36, 0x74, 0x46, 0x56,
   0x60, 0x04, 0x00, 0x00, 0xa0, 0x08, 0x80]

/-- `SESSION_SETUP_REQ`. -/
def sessionSetupReq : List UInt8 :=
  [0x80, 0x98, 0x02, 0x0f, 0x53, 0x2f, 0xe4, 0xcd, 0xd3, 0xb6, 0x26, 0xd1, 0xd0, 0x18, 0x00, 0x44,
   0x88, 0xcd, 0x12, 0xa8, 0x00]

/-- `SESSION_SETUP_RES`. -/
def sessionSetupRes : List UInt8 :=
  [0x80, 0x98, 0x02, 0x0f, 0x53, 0x2f, 0xe4, 0xcd, 0xd3, 0xb6, 0x26, 0xd1, 0xe0, 0x20, 0x3d, 0x11,
   0x14, 0xa9, 0x05, 0x09, 0x0c, 0xa9, 0x14, 0xc0, 0xc0, 0xc0, 0xc0, 0xc4, 0x1a, 0xf7, 0xfc, 0x36,
   0xc0, 0xc0]

/-- `SESSION_STOP_REQ`, of -20. -/
def sessionStopReq : List UInt8 :=
  [0x80, 0x94, 0x04, 0x1e, 0xa6, 0x5f, 0xc9, 0x9b, 0xa7, 0x6c, 0x4d, 0x8d, 0x7b, 0xfe, 0x1b, 0x60,
   0x62, 0x28]

/-- A `ServiceSelectionReq` under the same header, for service 65. -/
def serviceSelectionReq : List UInt8 :=
  [0x80, 0x84, 0x04, 0x1e, 0xa6, 0x5f, 0xc9, 0x9b, 0xa7, 0x6c, 0x4d, 0x8d, 0x7b, 0xfe, 0x1b, 0x60,
   0x62, 0x10, 0x40, 0x08, 0x80]

/-- The session id of all of them. -/
def sessionId : SessionId := ⟨[0x3d, 0x4c, 0xbf, 0x93, 0x37, 0x4e, 0xd8, 0x9b], rfl⟩

def iso2Entry : AppProtocol.Entry := ⟨"urn:iso:15118:2:2013:MsgDef", 2, 0, 1, 1⟩

def offers : List (List UInt8 × AppProtocol.Req) :=
  [(reqIso2, ⟨[iso2Entry]⟩),
   (reqTwo, ⟨[⟨"urn:iso:std:iso:15118:-20:DC", 1, 0, 10, 1⟩,
     { iso2Entry with schemaId := 20, priority := 2 }]⟩)]

/-- 1725456343, which nothing here reads. -/
def timeStamp : Rest := [0xd7, 0xbf, 0xe1, 0xb6, 0x06]

/-- The header of the -20 messages. -/
def header : Iso20.MessageHeader := ⟨sessionId.toList, timeStamp⟩

def iso2Documents : List (List UInt8 × Iso2.Document) :=
  [(sessionSetupReq, .v2gMessage ⟨sessionId.toList, []⟩
     (some (.request .sessionSetup [0x00, 0x11, 0x22, 0x33, 0x44, 0xaa])))]

def iso20Documents : List (List UInt8 × Iso20.Messages.Document) :=
  [(sessionStopReq, .request (.sessionStop .terminate) header []),
   (serviceSelectionReq, .request (.serviceSelection 65) header [0x01])]

/-- `DE*ABC*E00001`. -/
def evseId : Rest :=
  [0x44, 0x45, 0x2a, 0x41, 0x42, 0x43, 0x2a, 0x45, 0x30, 0x30, 0x30, 0x30, 0x31]

/-- The response to `sessionSetupReq`. -/
def sessionSetup : Message :=
  .iso2 (.v2gMessage ⟨sessionId.toList, []⟩
    (some (.response .sessionSetup .okNewSessionEstablished (evseId ++ timeStamp))))

def responses : List (Message × List UInt8) :=
  [(.appProtocolRes ⟨.okSuccessfulNegotiation, some 1⟩, [0x80, 0x40, 0x00, 0x40]),
   (.appProtocolRes ⟨.okSuccessfulNegotiation, some 10⟩, [0x80, 0x40, 0x02, 0x80]),
   (.appProtocolRes .reject, [0x80, 0x48, 0x80]),
   (sessionSetup, sessionSetupRes)]

/-- What a table has for `key`. -/
def find {α β : Type} [BEq α] (table : List (α × β)) (key : α) : Except ExiError β :=
  match table.lookup key with
  | some value => .ok value
  | none => .error .unknownEventCode

def codec : Codec where
  appProtocolReq := find offers
  appProtocolRes _ := .error .unknownEventCode
  iso2 := find iso2Documents
  iso20 := find iso20Documents
  iso20Ac _ := .error .unknownEventCode
  iso20Dc _ := .error .unknownEventCode
  iso20Wpt _ := .error .unknownEventCode
  iso20Acdp _ := .error .unknownEventCode
  iso20AcDerIec _ := .error .unknownEventCode
  iso20AcDerSae _ := .error .unknownEventCode
  toVec := find responses

/-! ### A whole exchange

Vectors of the same messages as both sides of a session write and read them, in the codings of the
generated modules: the handshake of a vehicle that offers the -20 set for AC, an answer outside
`V2G_Message`, and the start of a -20 session that joins an old one. -/

/-- The handshake of a vehicle that offers -20 for AC. -/
def reqAc : List UInt8 :=
  [0x80, 0x00, 0xf3, 0xab, 0x93, 0x71, 0xd3, 0x4b, 0x9b, 0x79, 0xd3, 0x9b, 0xa3, 0x21, 0xd3, 0x4b,
   0x9b, 0x79, 0xd1, 0x89, 0xa9, 0x89, 0x89, 0xc1, 0xd1, 0x69, 0x91, 0x81, 0xd2, 0x0a, 0x18, 0x01,
   0x00, 0x00, 0x04, 0x00, 0x40]

/-- What `sessionSetupRes` has in its body, as a document of its own. -/
def bareSessionSetupRes : List UInt8 :=
  [0x80, 0x80, 0x04, 0x07, 0xa2, 0x22, 0x95, 0x20, 0xa1, 0x21, 0x95, 0x22, 0x98, 0x18, 0x18, 0x18,
   0x18, 0x83, 0x5e, 0xff, 0x86, 0xd8, 0x18]

/-- `sessionSetupRes` with `FAILED`. -/
def sessionSetupResFailed : List UInt8 :=
  [0x80, 0x98, 0x02, 0x0f, 0x53, 0x2f, 0xe4, 0xcd, 0xd3, 0xb6, 0x26, 0xd1, 0xe0, 0x80, 0x3d, 0x11,
   0x14, 0xa9, 0x05, 0x09, 0x0c, 0xa9, 0x14, 0xc0, 0xc0, 0xc0, 0xc0, 0xc4, 0x1a, 0xf7, 0xfc, 0x36,
   0xc0, 0xc0]

/-- `SessionStopReq` of -2, to terminate. -/
def sessionStopReqIso2 : List UInt8 :=
  [0x80, 0x98, 0x02, 0x0f, 0x53, 0x2f, 0xe4, 0xcd, 0xd3, 0xb6, 0x26, 0xd1, 0xf0, 0x00]

def sessionSetupReqIso20 : List UInt8 :=
  [0x80, 0x8c, 0x04, 0x1e, 0xa6, 0x5f, 0xc9, 0x9b, 0xa7, 0x6c, 0x4d, 0x8d, 0x7b, 0xfe, 0x1b, 0x60,
   0x62, 0x03, 0xab, 0xa6, 0xa4, 0xab, 0x18, 0x80]

/-- With `OK_OldSessionJoined`. -/
def sessionSetupResIso20 : List UInt8 :=
  [0x80, 0x90, 0x04, 0x1e, 0xa6, 0x5f, 0xc9, 0x9b, 0xa7, 0x6c, 0x4d, 0x8d, 0x7b, 0xfe, 0x1b, 0x60,
   0x62, 0x06, 0x03, 0xd1, 0x11, 0x4a, 0x90, 0x50, 0x90, 0xca, 0x91, 0x4c, 0x0c, 0x0c, 0x0c, 0x0c,
   0x40]

def authorizationSetupReq : List UInt8 :=
  [0x80, 0x08, 0x04, 0x1e, 0xa6, 0x5f, 0xc9, 0x9b, 0xa7, 0x6c, 0x4d, 0x8d, 0x7b, 0xfe, 0x1b, 0x60,
   0x62]

/-- For external means of identification and nothing else. -/
def authorizationSetupRes : List UInt8 :=
  [0x80, 0x0c, 0x04, 0x1e, 0xa6, 0x5f, 0xc9, 0x9b, 0xa7, 0x6c, 0x4d, 0x8d, 0x7b, 0xfe, 0x1b, 0x60,
   0x62, 0x00, 0x04, 0x00]

/-- With the authorization still going on. -/
def authorizationRes : List UInt8 :=
  [0x80, 0x04, 0x04, 0x1e, 0xa6, 0x5f, 0xc9, 0x9b, 0xa7, 0x6c, 0x4d, 0x8d, 0x7b, 0xfe, 0x1b, 0x60,
   0x62, 0x00, 0x10]

def authorizationReq : List UInt8 :=
  [0x80, 0x00, 0x04, 0x1e, 0xa6, 0x5f, 0xc9, 0x9b, 0xa7, 0x6c, 0x4d, 0x8d, 0x7b, 0xfe, 0x1b, 0x60,
   0x62, 0x00]

/-- `AC_ChargeParameterDiscoveryReq` of the AC set, for 11 kW. -/
def chargeParametersReqAc : List UInt8 :=
  [0x80, 0x10, 0x04, 0x1e, 0xa6, 0x5f, 0xc9, 0x9b, 0xa7, 0x6c, 0x4d, 0x8d, 0x7b, 0xfe, 0x1b, 0x60,
   0x62, 0x08, 0x30, 0x0b, 0x22, 0x00, 0x39, 0x80, 0x48]

/-- `AC_ChargeParameterDiscoveryRes` of the AC DER IEC set, for 11 kW at 50 Hz. -/
def chargeParametersResDerIec : List UInt8 :=
  [0x80, 0x14, 0x04, 0x1e, 0xa6, 0x5f, 0xc9, 0x9b, 0xa7, 0x6c, 0x4d, 0x8d, 0x7b, 0xfe, 0x1b, 0x60,
   0x62, 0x00, 0x04, 0x18, 0x05, 0x91, 0x00, 0x1c, 0xc0, 0x24, 0x40, 0x01, 0x91, 0x40]

def acEntry : AppProtocol.Entry := ⟨"urn:iso:std:iso:15118:-20:AC", 1, 0, 1, 1⟩

/-- The message of `sessionSetupReq`. -/
def sessionSetupRequest : Message :=
  .iso2 (.v2gMessage ⟨sessionId.toList, []⟩
    (some (.request .sessionSetup [0x00, 0x11, 0x22, 0x33, 0x44, 0xaa])))

/-- The message of `bareSessionSetupRes`. -/
def bareSessionSetup : Message :=
  .iso2 (.body (.response .sessionSetup .okNewSessionEstablished (evseId ++ timeStamp)))

/-- The message of `sessionSetupResFailed`. -/
def sessionSetupFailed : Message :=
  .iso2 (.v2gMessage ⟨sessionId.toList, []⟩
    (some (.response .sessionSetup .failed (evseId ++ timeStamp))))

/-- The message of `sessionStopReqIso2`. -/
def sessionStopRequest : Message :=
  .iso2 (.v2gMessage ⟨sessionId.toList, []⟩ (some (.request (.sessionStop .terminate) [])))

/-- The message of `sessionSetupReqIso20`, with `WMIV1` for an id. -/
def sessionSetupRequestIso20 : Message :=
  .iso20 (.request .sessionSetup header [0x57, 0x4d, 0x49, 0x56, 0x31])

/-- The message of `sessionSetupResIso20`. -/
def sessionJoined : Message := .iso20 (.response .sessionSetup header .okOldSessionJoined evseId)

/-- The message of `authorizationSetupReq`. -/
def authorizationSetupRequest : Message := .iso20 (.request .authorizationSetup header [])

/-- The message of `authorizationSetupRes`. -/
def authorizationSetup : Message := .iso20 (.response .authorizationSetup header .ok [0x04, 0x00])

/-- The message of `authorizationReq`. -/
def authorizationRequest : Message := .iso20 (.request .authorization header [0x00])

/-- The message of `authorizationRes`. -/
def authorizationOngoing : Message := .iso20 (.response .authorization header .ok [0x10])

/-- The message of `chargeParametersReqAc`. -/
def chargeParametersAc : Message :=
  .iso20Ac (.request .chargeParameterDiscovery header [0x08, 0x30, 0x0b, 0x22, 0x00, 0x39, 0x80])

/-- The message of `chargeParametersResDerIec`. -/
def chargeParametersDerIec : Message :=
  .iso20AcDerIec (.response .chargeParameterDiscovery header .ok
    [0x04, 0x18, 0x05, 0x91, 0x00, 0x1c, 0xc0, 0x24, 0x40, 0x01, 0x91])

def exchanges : List (Message × List UInt8) :=
  [(.appProtocolReq ⟨[iso2Entry]⟩, reqIso2),
   (.appProtocolReq ⟨[acEntry]⟩, reqAc),
   (.appProtocolRes ⟨.okSuccessfulNegotiation, some 1⟩, [0x80, 0x40, 0x00, 0x40]),
   (.appProtocolRes ⟨.okSuccessfulNegotiationWithMinorDeviation, some 1⟩, [0x80, 0x44, 0x00, 0x40]),
   (.appProtocolRes .reject, [0x80, 0x48, 0x80]),
   (sessionSetupRequest, sessionSetupReq),
   (sessionSetup, sessionSetupRes),
   (bareSessionSetup, bareSessionSetupRes),
   (sessionSetupFailed, sessionSetupResFailed),
   (sessionStopRequest, sessionStopReqIso2),
   (sessionSetupRequestIso20, sessionSetupReqIso20),
   (sessionJoined, sessionSetupResIso20),
   (authorizationSetupRequest, authorizationSetupReq),
   (authorizationSetup, authorizationSetupRes),
   (authorizationRequest, authorizationReq),
   (authorizationOngoing, authorizationRes),
   (chargeParametersAc, chargeParametersReqAc),
   (chargeParametersDerIec, chargeParametersResDerIec)]

/-- What `exchanges` has under `bytes`, if it is a document of this type. -/
def read {α : Type} (document : Message → Option α) (bytes : List UInt8) : Except ExiError α :=
  match (exchanges.find? (·.2 = bytes)).bind fun entry => document entry.1 with
  | some doc => .ok doc
  | none => .error .unknownEventCode

/-- Both directions of `exchanges`. -/
def exchange : Codec where
  appProtocolReq := read fun | .appProtocolReq req => some req | _ => none
  appProtocolRes := read fun | .appProtocolRes res => some res | _ => none
  iso2 := read fun | .iso2 doc => some doc | _ => none
  iso20 := read fun | .iso20 doc => some doc | _ => none
  iso20Ac := read fun | .iso20Ac doc => some doc | _ => none
  iso20Dc := read fun | .iso20Dc doc => some doc | _ => none
  iso20Wpt := read fun | .iso20Wpt doc => some doc | _ => none
  iso20Acdp := read fun | .iso20Acdp doc => some doc | _ => none
  iso20AcDerIec := read fun | .iso20AcDerIec doc => some doc | _ => none
  iso20AcDerSae := read fun | .iso20AcDerSae doc => some doc | _ => none
  toVec := find exchanges

/-- A payload, framed. -/
def frame (payloadType : PayloadType) (payload : List UInt8) : List UInt8 :=
  V2gtp.Header.toBytes ⟨payloadType, UInt32.ofNat payload.length⟩ ++ payload

theorem mem_of_find {α β : Type} [BEq α] [LawfulBEq α] {table : List (α × β)} {key : α} {value : β}
    (h : find table key = .ok value) : (key, value) ∈ table := by
  unfold find at h
  split at h
  · next value' hlookup =>
    cases h
    obtain ⟨before, after, rfl, -⟩ := List.lookup_eq_some_iff.mp hlookup
    exact List.mem_append_right _ (List.mem_cons_self ..)
  · cases h

theorem lossless_exchange : exchange.Lossless := by
  intro m bytes h
  have hall : ∀ entry ∈ exchanges,
      decode exchange entry.1.generation entry.1.payloadType entry.2 = .ok entry.1 := by
    decide +kernel
  exact hall (m, bytes) (mem_of_find h)

/-- The sample codec answers every offer it has in no more bytes than the offer takes. -/
theorem answersOffers_exchange : exchange.AnswersOffers := by
  intro req payload res h hcode hid
  have hoffer : (∀ e ∈ req.appProtocols, e.schemaId = 1) ∧ 4 ≤ payload.length := by
    have hall : ∀ entry ∈ exchanges, (match entry.1 with
        | .appProtocolReq req => req.appProtocols.all (·.schemaId = 1) && 4 ≤ entry.2.length
        | _ => true) = true := by
      decide +kernel
    have hoffer := hall _ (mem_of_find h)
    simpa using hoffer
  have hanswer : ∃ answer, exchange.toVec (.appProtocolRes res) = .ok answer
      ∧ answer.length ≤ 4 := by
    obtain ⟨code, schemaId⟩ := res
    cases schemaId with
    | none =>
      cases code with
      | okSuccessfulNegotiation => cases hcode
      | okSuccessfulNegotiationWithMinorDeviation => cases hcode
      | failedNoNegotiation => exact ⟨[0x80, 0x48, 0x80], by decide +kernel, by decide⟩
    | some id =>
      obtain ⟨e, he, rfl⟩ := hid id rfl
      rw [hoffer.1 e he]
      cases code with
      | okSuccessfulNegotiation => exact ⟨[0x80, 0x40, 0x00, 0x40], by decide +kernel, by decide⟩
      | okSuccessfulNegotiationWithMinorDeviation =>
        exact ⟨[0x80, 0x44, 0x00, 0x40], by decide +kernel, by decide⟩
      | failedNoNegotiation => cases hcode
  obtain ⟨answer, hencodes, hlen⟩ := hanswer
  exact ⟨answer, hencodes, Nat.le_trans hlen hoffer.2⟩

end Golden

end Message

end Iso15118
