import Iso15118.Message.Basic

/-!
# The response that refuses a request

`Message::refusal`, with the generated `refusal` of each message set: whatever a request is, the
response of its exchange, in its message set, with the code and the schema's minimum of everything
else. What that minimum is, the generated `minimal()` says: it is the parameter **`Minimal`**.

* **`refusal`** — the response;
* **`isSome_refusal_iff`** — which requests have one, and for which codes;
* **`Refuses`** — what it is, with **`refuses_of_refusal`**.
-/

namespace Iso15118.Message

/-! ## Response codes by their index

The two tables, and that looking a code up by its own index finds it. -/

namespace Iso2

/-- `ResponseCode::ALL`. -/
def ResponseCode.all : List ResponseCode :=
  [.ok, .okNewSessionEstablished, .okOldSessionJoined, .okCertificateExpiresSoon, .failed,
    .failedSequenceError, .failedServiceIdInvalid, .failedUnknownSession,
    .failedServiceSelectionInvalid, .failedPaymentSelectionInvalid, .failedCertificateExpired,
    .failedSignatureError, .failedNoCertificateAvailable, .failedCertChainError,
    .failedChallengeInvalid, .failedContractCanceled, .failedWrongChargeParameter,
    .failedPowerDeliveryNotApplied, .failedTariffSelectionInvalid,
    .failedChargingProfileInvalid, .failedMeteringSignatureNotValid,
    .failedNoChargeServiceSelected, .failedWrongEnergyTransferMode, .failedContactorError,
    .failedCertificateNotAllowedAtThisEvse, .failedCertificateRevoked]

/-- `ResponseCode::from_index`. -/
def ResponseCode.fromIndex (index : UInt8) : Option ResponseCode := all[index.toNat]?

theorem ResponseCode.fromIndex_asU8 (code : ResponseCode) : fromIndex code.asU8 = some code := by
  cases code <;> rfl

end Iso2

namespace Iso20

/-- `ResponseCode::ALL`. -/
def ResponseCode.all : List ResponseCode :=
  [.ok, .okCertificateExpiresSoon, .okNewSessionEstablished, .okOldSessionJoined,
    .okPowerToleranceConfirmed, .warningAuthorizationSelectionInvalid, .warningCertificateExpired,
    .warningCertificateNotYetValid, .warningCertificateRevoked, .warningCertificateValidationError,
    .warningChallengeInvalid, .warningEimAuthorizationFailure, .warningEmspUnknown,
    .warningEvPowerProfileViolation, .warningGeneralPncAuthorizationError,
    .warningNoCertificateAvailable, .warningNoContractMatchingPcidFound,
    .warningPowerToleranceNotConfirmed, .warningScheduleRenegotiationFailed,
    .warningStandbyNotAllowed, .warningWpt, .failed, .failedAssociationError,
    .failedContactorError, .failedEvPowerProfileInvalid, .failedEvPowerProfileViolation,
    .failedMeteringSignatureNotValid, .failedNoEnergyTransferServiceSelected,
    .failedNoServiceRenegotiationSupported, .failedPauseNotAllowed, .failedPowerDeliveryNotApplied,
    .failedPowerToleranceNotConfirmed, .failedScheduleRenegotiation,
    .failedScheduleSelectionInvalid, .failedSequenceError, .failedServiceIdInvalid,
    .failedServiceSelectionInvalid, .failedSignatureError, .failedUnknownSession,
    .failedWrongChargeParameter]

/-- `ResponseCode::from_index`. -/
def ResponseCode.fromIndex (index : UInt8) : Option ResponseCode := all[index.toNat]?

theorem ResponseCode.fromIndex_asU8 (code : ResponseCode) : fromIndex code.asU8 = some code := by
  cases code <;> rfl

end Iso20

/-! ## The response of an exchange

Every request has a response of the same exchange. Its fields are the schema's minimum. -/

/-- The response a request is answered with. -/
def Iso2.Req.res : Iso2.Req → Iso2.Res
  | .authorization => .authorization
  | .cableCheck => .cableCheck
  | .certificateInstallation => .certificateInstallation
  | .certificateUpdate => .certificateUpdate
  | .chargeParameterDiscovery _ => .chargeParameterDiscovery
  | .chargingStatus => .chargingStatus
  | .currentDemand => .currentDemand
  | .meteringReceipt => .meteringReceipt
  | .paymentDetails => .paymentDetails
  | .paymentServiceSelection _ => .paymentServiceSelection
  | .powerDelivery _ => .powerDelivery
  | .preCharge => .preCharge
  | .serviceDetail => .serviceDetail
  | .serviceDiscovery => .serviceDiscovery
  | .sessionSetup => .sessionSetup
  | .sessionStop _ => .sessionStop
  | .weldingDetection => .weldingDetection

/-- The response a common request is answered with. -/
def Iso20.Messages.Req.res : Iso20.Messages.Req → Iso20.Messages.Res
  | .authorization => .authorization
  | .authorizationSetup => .authorizationSetup
  | .certificateInstallation => .certificateInstallation
  | .meteringConfirmation => .meteringConfirmation
  | .powerDelivery _ _ => .powerDelivery
  | .scheduleExchange => .scheduleExchange
  | .serviceDetail => .serviceDetail
  | .serviceDiscovery => .serviceDiscovery
  | .serviceSelection _ => .serviceSelection
  | .sessionSetup => .sessionSetup
  | .sessionStop _ => .sessionStop
  | .vehicleCheckIn => .vehicleCheckIn
  | .vehicleCheckOut => .vehicleCheckOut

@[simp] theorem Iso2.Req.name_res (e : Iso2.Req) : Element.name e.res = Element.name e := by
  cases e <;> rfl

@[simp] theorem Iso20.Messages.Req.name_res (e : Iso20.Messages.Req) :
    Element.name e.res = Element.name e := by
  cases e <;> rfl

/-- What the generated `minimal()` of each type puts in the fields nothing here reads. -/
structure Minimal where
  /-- A -2 header with no notification and no signature. -/
  header2 : Rest
  iso2 : Iso2.Res → Rest
  /-- `MessageHeader::minimal`, but for the session id. -/
  header20 : Rest
  iso20 : Iso20.Messages.Res → Rest
  iso20Ac : Iso20.Ac.Exchange → Rest
  iso20Dc : Iso20.Dc.Exchange → Rest
  iso20Wpt : Iso20.Wpt.Exchange → Rest
  iso20Acdp : Iso20.Acdp.Exchange → Rest
  iso20AcDerIec : Iso20.Ac.Exchange → Rest
  iso20AcDerSae : Iso20.Ac.Exchange → Rest

/-- `BodyChoice::refusal`. -/
def Iso2.BodyChoice.refusal (minimal : Res → Rest) (code : ResponseCode) :
    BodyChoice → Option BodyChoice
  | .request e _ => some (.response e.res code (minimal e.res))
  | .response _ _ _ | .bodyElement _ => none

/-- `Document::refusal`, of each message set. -/
def Iso20.Document.refusal {Req Res Other : Type} (res : Req → Res) (headerRest : Rest)
    (minimal : Res → Rest) (code : ResponseCode) :
    Document Req Res Other → Option (Document Req Res Other)
  | .request e _ _ =>
      some (.response (res e) ⟨List.replicate 8 0, headerRest⟩ code (minimal (res e)))
  | .response _ _ _ _ | .other _ _ => none

end Iso15118.Message

namespace Iso15118.Message

open Iso15118.V2gtp (PayloadType)

variable (minimal : Minimal)

/-- `Message::refusal`. -/
def refusal (code : UInt8) : Message → Option Message
  | .appProtocolReq _ | .appProtocolRes _ => none
  | .iso2 (.v2gMessage header body) => do
      let code ← Iso2.ResponseCode.fromIndex code
      let choice ← body
      let choice ← choice.refusal minimal.iso2 code
      some (.iso2 (.v2gMessage ⟨header.sessionId, minimal.header2⟩ (some choice)))
  | .iso2 _ => none
  | .iso20 doc => do
      let code ← Iso20.ResponseCode.fromIndex code
      let doc ← doc.refusal Iso20.Messages.Req.res minimal.header20 minimal.iso20 code
      some (.iso20 doc)
  | .iso20Ac doc => do
      let code ← Iso20.ResponseCode.fromIndex code
      let doc ← doc.refusal id minimal.header20 minimal.iso20Ac code
      some (.iso20Ac doc)
  | .iso20Dc doc => do
      let code ← Iso20.ResponseCode.fromIndex code
      let doc ← doc.refusal id minimal.header20 minimal.iso20Dc code
      some (.iso20Dc doc)
  | .iso20Wpt doc => do
      let code ← Iso20.ResponseCode.fromIndex code
      let doc ← doc.refusal id minimal.header20 minimal.iso20Wpt code
      some (.iso20Wpt doc)
  | .iso20Acdp doc => do
      let code ← Iso20.ResponseCode.fromIndex code
      let doc ← doc.refusal id minimal.header20 minimal.iso20Acdp code
      some (.iso20Acdp doc)
  | .iso20AcDerIec doc => do
      let code ← Iso20.ResponseCode.fromIndex code
      let doc ← doc.refusal id minimal.header20 minimal.iso20AcDerIec code
      some (.iso20AcDerIec doc)
  | .iso20AcDerSae doc => do
      let code ← Iso20.ResponseCode.fromIndex code
      let doc ← doc.refusal id minimal.header20 minimal.iso20AcDerSae code
      some (.iso20AcDerSae doc)

/-! ## What it is

A refusal pairs with its request, carries the code it was made with, and is of the same message
set. -/

/-- What a response code amounts to in a generation, if the generation defines it. -/
def outcomeOf : Protocol → UInt8 → Option Outcome
  | .din70121, _ => none
  | .iso2, code => (Iso2.ResponseCode.fromIndex code).map fun c => classify c.isOk c.isWarning
  | .iso20, code => (Iso20.ResponseCode.fromIndex code).map fun c => classify c.isOk c.isWarning

/-- `r` is the answer to `m` with response code `code`, in the message set of `m`. -/
structure Refuses (m r : Message) (code : UInt8) : Prop where
  notRequest : r.isRequest = false
  answers : r.answers m.name = true
  generation : r.generation = m.generation
  payloadType : r.payloadType = m.payloadType
  outcome : r.outcome = m.generation.bind fun p => outcomeOf p code

/-- A body element of -2 as a root of its own, outside a `V2G_Message`. -/
def Bare (m : Message) : Prop := ∃ choice, m = .iso2 (.body choice)

variable {minimal}

/-- A response of an exchange answers the request of it. -/
theorem answers_of_names {m r : Message} (stem : String) (hm : m.name = stem ++ "Req")
    (hr : r.name = stem ++ "Res") : r.isRequest = false ∧ r.answers m.name = true := by
  constructor
  · rw [isRequest, hr]
    exact endsWith_req_append_res stem
  · rw [hm]
    exact answers_append_req.mpr hr

/-- A -20 set refuses its requests, under the codes of the generation. -/
theorem refuses_document {Req Res Other : Type} [Element Req] [Element Res] [Element Other]
    {wrap : Iso20.Document Req Res Other → Message} {res : Req → Res} {rest : Rest}
    {minimalOf : Res → Rest} {code : UInt8} {doc : Iso20.Document Req Res Other} {r : Message}
    (hname : ∀ doc, (wrap doc).name = doc.name)
    (hgeneration : ∀ doc, (wrap doc).generation = some .iso20)
    (hpayload : ∀ doc doc', (wrap doc).payloadType = (wrap doc').payloadType)
    (houtcome : ∀ doc, (wrap doc).outcome
      = doc.responseCode.map fun c => classify c.isOk c.isWarning)
    (hres : ∀ e, Element.name (res e) = Element.name e)
    (h : (do
      let code ← Iso20.ResponseCode.fromIndex code
      let doc ← doc.refusal res rest minimalOf code
      some (wrap doc)) = some r) : Refuses (wrap doc) r code := by
  simp only [Option.bind_eq_bind, Option.bind_eq_some_iff] at h
  obtain ⟨c, hcode, doc', hdoc, h⟩ := h
  cases h
  cases doc with
  | request e header rest' =>
    cases hdoc
    obtain ⟨hnot, hanswers⟩ := answers_of_names (Element.name e)
      (m := wrap (.request e header rest'))
      (r := wrap (.response (res e) ⟨List.replicate 8 0, rest⟩ c (minimalOf (res e))))
      (hname _) ((hname _).trans (congrArg (· ++ "Res") (hres e)))
    refine ⟨hnot, hanswers, ?_, hpayload _ _, ?_⟩
    · rw [hgeneration, hgeneration]
    · rw [houtcome, hgeneration]
      show _ = outcomeOf .iso20 code
      rw [outcomeOf, hcode]
      rfl
  | response e header c' rest' => cases hdoc
  | other e rest' => cases hdoc

/-- **What a refusal is**: the answer to the request it refuses, with that code. -/
theorem refuses_of_refusal {m r : Message} {code : UInt8}
    (h : m.refusal minimal code = some r) : Refuses m r code := by
  cases m with
  -- the handshake has no refusal of this kind
  | appProtocolReq req => cases h
  | appProtocolRes res => cases h
  | iso2 doc =>
    cases doc with
    | v2gMessage header body =>
      simp only [refusal, Option.bind_eq_bind, Option.bind_eq_some_iff] at h
      obtain ⟨c, hcode, choice, rfl, choice', hchoice, h⟩ := h
      cases h
      cases choice with
      | request e rest =>
        -- the body is what tells a request of the older generation
        cases hchoice
        obtain ⟨hnot, hanswers⟩ := answers_of_names (Element.name e)
          (m := .iso2 (.v2gMessage header (some (.request e rest))))
          (r := .iso2 (.v2gMessage ⟨header.sessionId, minimal.header2⟩
            (some (.response e.res c (minimal.iso2 e.res)))))
          rfl (congrArg (· ++ "Res") (Iso2.Req.name_res e))
        refine ⟨hnot, hanswers, rfl, rfl, ?_⟩
        show _ = outcomeOf .iso2 code
        rw [outcomeOf, hcode]
        rfl
      | response e c' rest => cases hchoice
      | bodyElement rest => cases hchoice
    | body choice => cases h
    | other e rest => cases h
  | iso20 doc =>
    exact refuses_document (fun _ => rfl) (fun _ => rfl) (fun _ _ => rfl) (fun _ => rfl)
      Iso20.Messages.Req.name_res h
  | iso20Ac doc =>
    exact refuses_document (fun _ => rfl) (fun _ => rfl) (fun _ _ => rfl) (fun _ => rfl)
      (fun _ => rfl) h
  | iso20Dc doc =>
    exact refuses_document (fun _ => rfl) (fun _ => rfl) (fun _ _ => rfl) (fun _ => rfl)
      (fun _ => rfl) h
  | iso20Wpt doc =>
    exact refuses_document (fun _ => rfl) (fun _ => rfl) (fun _ _ => rfl) (fun _ => rfl)
      (fun _ => rfl) h
  | iso20Acdp doc =>
    exact refuses_document (fun _ => rfl) (fun _ => rfl) (fun _ _ => rfl) (fun _ => rfl)
      (fun _ => rfl) h
  | iso20AcDerIec doc =>
    exact refuses_document (fun _ => rfl) (fun _ => rfl) (fun _ _ => rfl) (fun _ => rfl)
      (fun _ => rfl) h
  | iso20AcDerSae doc =>
    exact refuses_document (fun _ => rfl) (fun _ => rfl) (fun _ _ => rfl) (fun _ => rfl)
      (fun _ => rfl) h

/-! ## Which requests have one

By cases on the message: the document types are gone through once, and the elements of each at
once. -/

@[simp] theorem isSome_outcomeOf_iso2 (code : UInt8) :
    (outcomeOf .iso2 code).isSome = (Iso2.ResponseCode.fromIndex code).isSome := Option.isSome_map

@[simp] theorem isSome_outcomeOf_iso20 (code : UInt8) :
    (outcomeOf .iso20 code).isSome = (Iso20.ResponseCode.fromIndex code).isSome :=
  Option.isSome_map

/-- A -20 request has a refusal for every code of the generation. -/
theorem isSome_document {Req Res Other : Type} [Element Req] [Element Res] [Element Other]
    {wrap : Iso20.Document Req Res Other → Message} {res : Req → Res} {rest : Rest}
    {minimalOf : Res → Rest} {code : UInt8} {doc : Iso20.Document Req Res Other}
    (hother : ∀ e : Other, endsWith (Element.name e) "Req" = false)
    (hreq : endsWith doc.name "Req" = true) :
    (do
      let code ← Iso20.ResponseCode.fromIndex code
      let doc ← doc.refusal res rest minimalOf code
      some (wrap doc)).isSome = (outcomeOf .iso20 code).isSome := by
  rw [isSome_outcomeOf_iso20]
  cases doc with
  | request e header rest' => cases Iso20.ResponseCode.fromIndex code <;> rfl
  | response e header c rest' =>
    rw [Iso20.Document.name, endsWith_req_append_res] at hreq
    cases hreq
  | other e rest' =>
    rw [Iso20.Document.name, hother] at hreq
    cases hreq

theorem not_req_ac (e : Iso20.Ac.OtherElement) : endsWith (Element.name e) "Req" = false := by
  cases e <;> decide +kernel

theorem not_req_der (e : Iso20.Ac.DerElement) : endsWith (Element.name e) "Req" = false := by
  cases e <;> decide +kernel

/-- A message of the other generation is no bare body element. -/
theorem not_bare_iff {m : Message} {code : UInt8} (hm : ∀ doc, m ≠ .iso2 doc)
    (h : (m.refusal minimal code).isSome = (outcomeOf .iso20 code).isSome) :
    (m.refusal minimal code).isSome = true ↔ (outcomeOf .iso20 code).isSome = true ∧ ¬ Bare m := by
  have hbare : ¬ Bare m := by
    rintro ⟨choice, rfl⟩
    exact hm _ rfl
  rw [h, and_iff_left hbare]

/-- **Which requests have one**: all of them but a bare body element, for every code their
generation defines. -/
theorem isSome_refusal_iff {m : Message} {p : Protocol} (code : UInt8) (hreq : m.isRequest = true)
    (hgeneration : m.generation = some p) :
    (m.refusal minimal code).isSome = true ↔ (outcomeOf p code).isSome = true ∧ ¬ Bare m := by
  cases m with
  | appProtocolReq req => cases hgeneration
  | appProtocolRes res => cases hgeneration
  | iso2 doc =>
    cases hgeneration
    rw [isSome_outcomeOf_iso2]
    -- in the first generation it is the body that is answered, and there is none for a bare one
    cases doc with
    | v2gMessage header body =>
      have hbare : ¬ Bare (.iso2 (.v2gMessage header body)) := by
        rintro ⟨choice, h⟩
        cases h
      rw [and_iff_left hbare]
      cases body with
      | none => exact absurd (show endsWith "V2G_Message" "Req" = true from hreq) (by decide)
      | some choice =>
        cases choice with
        | request e rest =>
          show (do
            let code ← Iso2.ResponseCode.fromIndex code
            some (iso2 (.v2gMessage ⟨header.sessionId, minimal.header2⟩
              (some (.response e.res code (minimal.iso2 e.res)))))).isSome = true ↔ _
          cases Iso2.ResponseCode.fromIndex code <;> rfl
        | response e c rest =>
          have hname : (Message.iso2 (.v2gMessage header (some (.response e c rest)))).isRequest
              = false := endsWith_req_append_res _
          rw [hname] at hreq
          cases hreq
        | bodyElement rest =>
          exact absurd (show endsWith "BodyElement" "Req" = true from hreq) (by decide)
    | body choice =>
      exact iff_of_false (fun h => (by cases h)) fun h => h.2 ⟨choice, rfl⟩
    -- any other root is no request
    | other e rest =>
      have hname : endsWith (Element.name e) "Req" = false := by
        cases e <;> decide +kernel
      have hreq : endsWith (Element.name e) "Req" = true := hreq
      rw [hname] at hreq
      cases hreq
  -- the message sets of the second generation: each has a response for every request
  | iso20 doc =>
    cases hgeneration
    refine not_bare_iff (by simp) (isSome_document ?_ hreq)
    intro e
    cases e <;> decide +kernel
  | iso20Ac doc =>
    cases hgeneration
    exact not_bare_iff (by simp) (isSome_document not_req_ac hreq)
  | iso20Dc doc =>
    cases hgeneration
    refine not_bare_iff (by simp) (isSome_document ?_ hreq)
    intro e
    cases e <;> decide +kernel
  | iso20Wpt doc =>
    cases hgeneration
    exact not_bare_iff (by simp) (isSome_document (fun e => e.elim) hreq)
  | iso20Acdp doc =>
    cases hgeneration
    exact not_bare_iff (by simp) (isSome_document (fun e => e.elim) hreq)
  | iso20AcDerIec doc =>
    cases hgeneration
    refine not_bare_iff (by simp) (isSome_document ?_ hreq)
    intro e
    cases e with
    | ac e => exact not_req_ac e
    | der e => exact not_req_der e
  | iso20AcDerSae doc =>
    cases hgeneration
    refine not_bare_iff (by simp) (isSome_document ?_ hreq)
    intro e
    cases e with
    | ac e => exact not_req_ac e
    | der e => exact not_req_der e
    | frequencyDroop => decide +kernel

end Iso15118.Message
