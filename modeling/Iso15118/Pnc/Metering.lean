import Iso15118.Message.Document
import Iso15118.Pnc.Replay
import Iso15118.Pnc.SignVerify

/-!
# What a metering receipt is evidence of

The energy on the invoice rests on a signature. In ISO 15118-2 the vehicle signs the reading the
station metered (`sign_metering_receipt`, `verify_metering_receipt` of `pnc/iso2.rs`); in
ISO 15118-20 the station signs it and the vehicle confirms it (`sign_metering_data`,
`verify_metering_data`, `verify_metering_confirmation` of `pnc/iso20.rs`). A valid signature alone
says nothing: the peer chose the bytes, and the contract key that signs receipts signs
authorizations too.

* **`checkSession`**, **`checkEcho`** — this charge, and the reading this side issued;
* **`Iso2.KeyUse`** — what a contract key is used for;
* **`metering_accepted_iff`** — a receipt that is signed passes for one reading and one session;
* **`metering_not_forged`** — nothing else does, whatever else the key has signed.
-/

namespace Iso15118.Pnc

open Iso15118.Lib Iso15118.Exi
open Iso15118.Session (SessionId)

/-- Checks that a signed element names the session it arrived in. -/
def checkSession (signed : List UInt8) (session : SessionId) : Except PncError Unit :=
  if SessionId.fromSlice signed = some session then .ok () else .error .sessionMismatch

/-- Checks that an echoed value is the one this side issued. -/
def checkEcho {T : Type} [DecidableEq T] (echoed issued : T) (field : String) :
    Except PncError Unit :=
  if echoed = issued then .ok () else .error (.notAsIssued field)

theorem checkSession_eq_ok {signed : List UInt8} {session : SessionId} :
    checkSession signed session = .ok () ↔ SessionId.fromSlice signed = some session := by
  unfold checkSession
  rw [require_eq_ok]
  exact and_iff_left rfl

theorem checkEcho_eq_ok {T : Type} [DecidableEq T] {echoed issued : T} {field : String} :
    checkEcho echoed issued field = .ok () ↔ echoed = issued := by
  unfold checkEcho
  rw [require_eq_ok]
  exact and_iff_left rfl

/-! ## ISO 15118-2: the vehicle signs

The receipt names the session and the reading. The station knows both, and compares before it
looks at the signature. -/

namespace Iso2

structure MeterInfo where
  meterId : String
  meterReading : Option UInt64
  sigMeterReading : Option (List UInt8)
  meterStatus : Option Int16
  tMeter : Option Int64
  deriving DecidableEq

structure MeteringReceiptReq where
  id : Option String
  sessionId : List UInt8
  saScheduleTupleId : Option UInt8
  meterInfo : MeterInfo
  deriving DecidableEq

section

variable (toFragmentWith : Encode MeteringReceiptReq) (toXmldsigFragmentWith : Encode SignedInfo)
  (hash : Hash)

/-- The receipt as it is signed. -/
def fillReceipt (receipt : MeteringReceiptReq) : MeteringReceiptReq :=
  { receipt with id := some (receipt.id.getD defaultId) }

/-- Signs a `MeteringReceiptReq`: the receipt as it was filled in, and the signature over it. -/
def signMeteringReceipt (signer : Sign) (receipt : MeteringReceiptReq) :
    MeteringReceiptReq × Except PncError Signature :=
  let receipt := fillReceipt receipt
  let id := receipt.id.getD ""
  (receipt, do
    let fragment ← encoded (toFragmentWith receipt .literal)
    sign toXmldsigFragmentWith hash signer [⟨id, fragment⟩])

/-- Checks a `MeteringReceiptReq` against the reading the station metered. -/
def verifyMeteringReceipt (verifier : Verify) (receipt : MeteringReceiptReq)
    (signature : Signature) (issued : MeterInfo) (session : SessionId) : Except PncError Unit := do
  checkSession receipt.sessionId session
  checkEcho receipt.meterInfo issued "MeterInfo"
  match receipt.id with
  | none => .error .missingId
  | some id =>
      eitherCoding fun coding => do
        let fragment ← encoded (toFragmentWith receipt coding)
        verifyWith toXmldsigFragmentWith hash verifier signature [⟨id, fragment⟩] coding

end

end Iso2

/-! ## ISO 15118-20: the station signs, the vehicle confirms

The data are signed by the station and echoed by the vehicle, whose confirmation is compared with
what was issued. -/

namespace Iso20

structure RationalNumber where
  exponent : Int8
  value : Int16
  deriving DecidableEq

structure DetailedCost where
  amount : RationalNumber
  costPerUnit : RationalNumber
  deriving DecidableEq

structure DetailedTax where
  taxRuleId : UInt32
  amount : RationalNumber
  deriving DecidableEq

structure Receipt where
  timeAnchor : UInt64
  energyCosts : Option DetailedCost
  occupancyCosts : Option DetailedCost
  additionalServicesCosts : Option DetailedCost
  overstayCosts : Option DetailedCost
  taxCosts : List DetailedTax
  deriving DecidableEq

structure MeterInfo where
  meterId : String
  chargedEnergyReadingWh : UInt64
  bptDischargedEnergyReadingWh : Option UInt64
  capacitiveEnergyReadingVarh : Option UInt64
  bptInductiveEnergyReadingVarh : Option UInt64
  meterSignature : Option (List UInt8)
  meterStatus : Option Int16
  meterTimestamp : Option UInt64
  deriving DecidableEq

inductive SignedMeteringDataChoice where
  | dynamicSmdtControlMode
  | scheduledSmdtControlMode (selectedScheduleTupleId : UInt32)
  deriving DecidableEq

structure SignedMeteringData where
  id : String
  sessionId : List UInt8
  meterInfo : MeterInfo
  receipt : Option Receipt
  choice : SignedMeteringDataChoice
  deriving DecidableEq

structure MeteringConfirmationReq where
  header : Message.Iso20.MessageHeader
  signedMeteringData : SignedMeteringData
  deriving DecidableEq

section

variable (toFragmentWith : Encode SignedMeteringData) (toXmldsigFragmentWith : Encode SignedInfo)
  (hash : Hash)

/-- The data as they are signed. -/
def fillData (data : SignedMeteringData) : SignedMeteringData :=
  { data with id := if data.id.isEmpty then defaultId else data.id }

/-- Signs a `SignedMeteringData`. -/
def signMeteringData (signer : Sign) (suite : Suite) (data : SignedMeteringData) :
    SignedMeteringData × Except PncError Signature :=
  let data := fillData data
  (data, do
    let fragment ← encoded (toFragmentWith data .literal)
    sign toXmldsigFragmentWith hash signer suite [⟨data.id, fragment⟩])

/-- Checks a `SignedMeteringData` the station issued: the vehicle's side. -/
def verifyMeteringData (verifier : Verify) (data : SignedMeteringData) (signature : Signature)
    (session : SessionId) (accepted : List Suite) : Except PncError Unit := do
  checkSession data.sessionId session
  if data.id.isEmpty then .error .missingId
  else
    eitherCoding fun coding => do
      let fragment ← encoded (toFragmentWith data coding)
      verifyWith toXmldsigFragmentWith hash verifier signature [⟨data.id, fragment⟩] accepted coding

end

/-- Checks that a `MeteringConfirmationReq` acknowledges the reading that was issued: the
station's side. -/
def verifyMeteringConfirmation (request : MeteringConfirmationReq) (issued : SignedMeteringData) :
    Except PncError Unit :=
  checkEcho request.signedMeteringData issued "SignedMeteringData"

end Iso20

/-! ## What is checked

What a verification that succeeded has compared, with the one element that its signature covers. -/

/-- -2: the receipt names the session, states the reading and has an id, and under one coding the
signature covers exactly its fragment. -/
theorem Iso2.verifyMeteringReceipt_ok {toFragmentWith : Encode MeteringReceiptReq}
    {toXmldsigFragmentWith : Encode SignedInfo} {hash : Hash} {verifier : Verify}
    {receipt : MeteringReceiptReq} {signature : Signature} {issued : MeterInfo}
    {session : SessionId}
    (h : verifyMeteringReceipt toFragmentWith toXmldsigFragmentWith hash verifier receipt signature
      issued session = .ok ()) :
    SessionId.fromSlice receipt.sessionId = some session ∧ receipt.meterInfo = issued
      ∧ ∃ id coding fragment, receipt.id = some id ∧ toFragmentWith receipt coding = .ok fragment
        ∧ Covered toXmldsigFragmentWith hash verifier [.ecdsaSha256] signature
          [⟨id, fragment⟩] := by
  unfold verifyMeteringReceipt at h
  obtain ⟨_, hsession, h⟩ := bind_eq_ok.mp h
  obtain ⟨_, hecho, h⟩ := bind_eq_ok.mp h
  refine ⟨checkSession_eq_ok.mp hsession, checkEcho_eq_ok.mp hecho, ?_⟩
  split at h
  · cases h
  · next id hid =>
    obtain ⟨coding, h⟩ := exists_coding h
    obtain ⟨fragment, hfragment, h⟩ := bind_eq_ok.mp h
    exact ⟨id, coding, fragment, hid, mapError_eq_ok.mp hfragment, covered_of_verifyWith h⟩

/-- -20: the data name the session, and the signature covers exactly their fragment. -/
theorem Iso20.verifyMeteringData_ok {toFragmentWith : Encode SignedMeteringData}
    {toXmldsigFragmentWith : Encode SignedInfo} {hash : Hash} {verifier : Verify}
    {data : SignedMeteringData} {signature : Signature} {session : SessionId}
    {accepted : List Suite}
    (h : verifyMeteringData toFragmentWith toXmldsigFragmentWith hash verifier data signature
      session accepted = .ok ()) :
    SessionId.fromSlice data.sessionId = some session
      ∧ ∃ coding fragment, toFragmentWith data coding = .ok fragment
        ∧ Covered toXmldsigFragmentWith hash verifier accepted signature
          [⟨data.id, fragment⟩] := by
  unfold verifyMeteringData at h
  obtain ⟨_, hsession, h⟩ := bind_eq_ok.mp h
  obtain ⟨-, h⟩ := refuse_eq_ok.mp h
  obtain ⟨coding, h⟩ := exists_coding h
  obtain ⟨fragment, hfragment, h⟩ := bind_eq_ok.mp h
  exact ⟨checkSession_eq_ok.mp hsession, coding, fragment, mapError_eq_ok.mp hfragment,
    covered_of_verifyWith h⟩

/-! ## A receipt that is signed passes for its own reading, in its own session

Signing and verifying put together. What was signed verifies; that it passes is a matter of the
two comparisons. -/

section Accepted

variable {toXmldsigFragmentWith : Encode SignedInfo} {hash : Hash} {signer : Sign}
  {verifier : Verify} {signature : Signature}

/-- What is signed over one element verifies against it. -/
theorem verify_one {suite : Suite} {accepted : List Suite} {element : Signed}
    (hverifier : ∀ suite data value, signer suite data = .ok value →
      verifier suite data value = .ok ())
    (h : sign toXmldsigFragmentWith hash signer suite [element] = .ok signature)
    (haccepted : suite ∈ accepted) :
    verifyWith toXmldsigFragmentWith hash verifier accepted signature [element] .literal
      = .ok () :=
  verify_of_sign hverifier h (List.nodup_singleton _) haccepted (List.Perm.refl _)

theorem Iso2.verifyMeteringReceipt_of_sign {toFragmentWith : Encode MeteringReceiptReq}
    {receipt : MeteringReceiptReq} {issued : MeterInfo} {session : SessionId}
    (hverifier : ∀ suite data value, signer suite data = .ok value →
      verifier suite data value = .ok ())
    (hsign : (signMeteringReceipt toFragmentWith toXmldsigFragmentWith hash signer receipt).2
      = .ok signature)
    (hissued : receipt.meterInfo = issued)
    (hsession : SessionId.fromSlice receipt.sessionId = some session) :
    verifyMeteringReceipt toFragmentWith toXmldsigFragmentWith hash verifier (fillReceipt receipt)
      signature issued session = .ok () := by
  obtain ⟨fragment, hfragment, hsign⟩ := bind_eq_ok.mp hsign
  have hone := verify_one hverifier hsign (List.mem_singleton_self _)
  unfold verifyMeteringReceipt
  refine bind_eq_ok.mpr ⟨(), checkSession_eq_ok.mpr hsession, ?_⟩
  refine bind_eq_ok.mpr ⟨(), checkEcho_eq_ok.mpr hissued, ?_⟩
  exact eitherCoding_of_literal (bind_eq_ok.mpr ⟨fragment, hfragment, hone⟩)

/-- The id of signed data is not empty. -/
theorem Iso20.not_isEmpty_fillData (data : SignedMeteringData) :
    ¬ (fillData data).id.isEmpty = true := by
  show ¬ (if data.id.isEmpty = true then defaultId else data.id).isEmpty = true
  split
  · decide
  · next h => exact h

theorem Iso20.verifyMeteringData_of_sign {toFragmentWith : Encode SignedMeteringData}
    {suite : Suite} {accepted : List Suite} {data : SignedMeteringData} {session : SessionId}
    (hverifier : ∀ suite data value, signer suite data = .ok value →
      verifier suite data value = .ok ())
    (hsign : (signMeteringData toFragmentWith toXmldsigFragmentWith hash signer suite data).2
      = .ok signature)
    (haccepted : suite ∈ accepted) (hsession : SessionId.fromSlice data.sessionId = some session) :
    verifyMeteringData toFragmentWith toXmldsigFragmentWith hash verifier (fillData data) signature
      session accepted = .ok () := by
  obtain ⟨fragment, hfragment, hsign⟩ := bind_eq_ok.mp hsign
  have hone := verify_one hverifier hsign haccepted
  unfold verifyMeteringData
  refine bind_eq_ok.mpr ⟨(), checkSession_eq_ok.mpr hsession, ?_⟩
  rw [if_neg (not_isEmpty_fillData data)]
  exact eitherCoding_of_literal (bind_eq_ok.mpr ⟨fragment, hfragment, hone⟩)

end Accepted

/-- **A signed receipt passes for one reading and one session.** Assume the verifier accepts what
the signer produced over the same bytes. In -2 a signed receipt verifies against a reading and a
session exactly when it states that reading and names that session; in -20 signed data verify, under
a policy that accepts their suite, exactly in the session they name, and a confirmation of them is
accepted exactly for what was issued. -/
theorem metering_accepted_iff (toFragment2 : Encode Iso2.MeteringReceiptReq)
    (toFragment20 : Encode Iso20.SignedMeteringData) (toXmldsigFragmentWith : Encode SignedInfo)
    (hash : Hash) (signer : Sign) (verifier : Verify)
    (hverifier : ∀ suite data value, signer suite data = .ok value →
      verifier suite data value = .ok ()) :
    (∀ receipt filled signature issued session,
      Iso2.signMeteringReceipt toFragment2 toXmldsigFragmentWith hash signer receipt
          = (filled, .ok signature) →
        (Iso2.verifyMeteringReceipt toFragment2 toXmldsigFragmentWith hash verifier filled signature
            issued session = .ok ()
          ↔ receipt.meterInfo = issued ∧ SessionId.fromSlice receipt.sessionId = some session))
      ∧ ∀ suite accepted data filled signature session header issued, suite ∈ accepted →
        Iso20.signMeteringData toFragment20 toXmldsigFragmentWith hash signer suite data
            = (filled, .ok signature) →
          (Iso20.verifyMeteringData toFragment20 toXmldsigFragmentWith hash verifier filled
              signature session accepted = .ok ()
            ↔ SessionId.fromSlice data.sessionId = some session)
          ∧ (Iso20.verifyMeteringConfirmation ⟨header, filled⟩ issued = .ok ()
            ↔ filled = issued) := by
  refine ⟨?_, ?_⟩
  -- the older generation: the receipt carries the reading back
  · intro receipt filled signature issued session hsign
    obtain rfl : Iso2.fillReceipt receipt = filled := congrArg Prod.fst hsign
    constructor
    · intro h
      obtain ⟨hsession, hecho, -⟩ := Iso2.verifyMeteringReceipt_ok h
      exact ⟨hecho, hsession⟩
    · rintro ⟨hissued, hsession⟩
      have hsigned := congrArg Prod.snd hsign
      exact Iso2.verifyMeteringReceipt_of_sign hverifier hsigned hissued hsession
  -- the newer one: the data is signed, and confirmed by itself
  · intro suite accepted data filled signature session header issued haccepted hsign
    obtain rfl : Iso20.fillData data = filled := congrArg Prod.fst hsign
    refine ⟨⟨fun h => (Iso20.verifyMeteringData_ok h).1, fun hsession => ?_⟩, checkEcho_eq_ok⟩
    have hsigned := congrArg Prod.snd hsign
    exact Iso20.verifyMeteringData_of_sign hverifier hsigned haccepted hsession

/-! ## What passes was signed as a receipt

One contract key signs authorizations and receipts alike. A signature that covers a receipt's
fragment was made for that fragment, and by `Apart` no authorization has it. -/

/-- No value of one kind is written as a value of the other is. -/
def Apart {α β : Type} (encode : Encode α) (encode' : Encode β) : Prop :=
  ∀ a b coding coding' bytes, encode a coding = .ok bytes → encode' b coding' ≠ .ok bytes

namespace Iso2

/-- One call of `sign_metering_receipt`: its receipt, and how the signer answered. -/
structure ReceiptCall where
  receipt : MeteringReceiptReq
  signer : Sign

/-- The receipt as the call signed it. -/
def ReceiptCall.signed (call : ReceiptCall) : MeteringReceiptReq := fillReceipt call.receipt

/-- What a contract key is used for. -/
inductive KeyUse where
  | authorization (call : SignCall)
  | receipt (call : ReceiptCall)

section

variable (toFragmentWith : Encode AuthorizationReq) (toReceiptWith : Encode MeteringReceiptReq)
  (toXmldsigFragmentWith : Encode SignedInfo) (hash : Hash)

/-- What the call returned. -/
def KeyUse.returned : KeyUse → Except PncError Signature
  | .authorization call =>
      (signAuthorization toFragmentWith toXmldsigFragmentWith hash call.signer call.request
        call.challenge).2
  | .receipt call =>
      (signMeteringReceipt toReceiptWith toXmldsigFragmentWith hash call.signer call.receipt).2

/-- The use returned a signature of this value over these bytes. -/
def KeyUse.Produced (use : KeyUse) (suite : Suite) (data value : List UInt8) : Prop :=
  ∃ signature, use.returned toFragmentWith toReceiptWith toXmldsigFragmentWith hash = .ok signature
    ∧ suite = .ecdsaSha256 ∧ toXmldsigFragmentWith signature.signedInfo .literal = .ok data
    ∧ signature.signatureValue.value = value

/-- The fragment the use put its signature to. -/
def KeyUse.fragment : KeyUse → Except ExiError (List UInt8)
  | .authorization call => toFragmentWith call.signed .literal
  | .receipt call => toReceiptWith call.signed .literal

end

variable {toFragmentWith : Encode AuthorizationReq} {toReceiptWith : Encode MeteringReceiptReq}
  {toXmldsigFragmentWith : Encode SignedInfo} {hash : Hash}

/-- Every use signs one element, and its fragment is the use's. -/
theorem KeyUse.exists_sign {use : KeyUse} {suite : Suite} {data value : List UInt8}
    (h : use.Produced toFragmentWith toReceiptWith toXmldsigFragmentWith hash suite data value) :
    ∃ element signer signature, use.fragment toFragmentWith toReceiptWith = .ok element.fragment
      ∧ Pnc.sign toXmldsigFragmentWith hash signer suite [element] = .ok signature
      ∧ toXmldsigFragmentWith signature.signedInfo .literal = .ok data := by
  obtain ⟨signature, hreturned, rfl, hdata, -⟩ := h
  cases use with
  | authorization call =>
    obtain ⟨fragment, hfragment, hsign⟩ := bind_eq_ok.mp hreturned
    exact ⟨⟨_, fragment⟩, call.signer, signature, mapError_eq_ok.mp hfragment, hsign, hdata⟩
  | receipt call =>
    obtain ⟨fragment, hfragment, hsign⟩ := bind_eq_ok.mp hreturned
    exact ⟨⟨_, fragment⟩, call.signer, signature, mapError_eq_ok.mp hfragment, hsign, hdata⟩

/-- What a signature of the key covers is the fragment of one of its uses. -/
theorem exists_use_of_covered {history : List KeyUse} {verifier : Verify} {signature : Signature}
    {accepted : List Suite} {element : Signed}
    (hhash : ∀ suite, Function.Injective (hash suite)) (hxmldsig : Lossless toXmldsigFragmentWith)
    (hverifier : ∀ suite data value, verifier suite data value = .ok () → ∃ use ∈ history,
      use.Produced toFragmentWith toReceiptWith toXmldsigFragmentWith hash suite data value)
    (h : Covered toXmldsigFragmentWith hash verifier accepted signature [element]) :
    ∃ use ∈ history, use.fragment toFragmentWith toReceiptWith = .ok element.fragment := by
  refine signed_of_covered (P := fun element => ∃ use ∈ history,
    use.fragment toFragmentWith toReceiptWith = .ok element.fragment) hhash hxmldsig ?_ h
  intro suite data value hverified
  obtain ⟨use, hmem, hproduced⟩ := hverifier _ _ _ hverified
  obtain ⟨element', signer, signature', hfragment, hsign, hdata⟩ :=
    KeyUse.exists_sign hproduced
  exact ⟨element', signer, signature', ⟨use, hmem, hfragment⟩, hsign, hdata⟩

end Iso2

namespace Iso20

/-- One call of `sign_metering_data`, under a suite. -/
structure MeteringCall where
  suite : Suite
  data : SignedMeteringData
  signer : Sign

/-- The data as the call signed them. -/
def MeteringCall.signed (call : MeteringCall) : SignedMeteringData := fillData call.data

/-- The call returned a signature of this value over these bytes. -/
def MeteringCall.Produced (call : MeteringCall) (toFragmentWith : Encode SignedMeteringData)
    (toXmldsigFragmentWith : Encode SignedInfo) (hash : Hash) (suite : Suite)
    (data value : List UInt8) : Prop :=
  ∃ signature, (signMeteringData toFragmentWith toXmldsigFragmentWith hash call.signer call.suite
      call.data).2 = .ok signature
    ∧ suite = call.suite ∧ toXmldsigFragmentWith signature.signedInfo .literal = .ok data
    ∧ signature.signatureValue.value = value

/-- Metering data that verifies is data some call has signed. -/
theorem signed_of_verifyMeteringData {toFragmentWith : Encode SignedMeteringData}
    {toXmldsigFragmentWith : Encode SignedInfo} {hash : Hash} {verifier : Verify}
    {signature : Signature} {history : List MeteringCall} {data : SignedMeteringData}
    {session : SessionId} {accepted : List Suite}
    (hhash : ∀ suite, Function.Injective (hash suite)) (hxmldsig : Lossless toXmldsigFragmentWith)
    (hfragment : Lossless toFragmentWith)
    (hverifier : ∀ suite data value, verifier suite data value = .ok () →
      ∃ call ∈ history, call.Produced toFragmentWith toXmldsigFragmentWith hash suite data value)
    (h : verifyMeteringData toFragmentWith toXmldsigFragmentWith hash verifier data signature
      session accepted = .ok ()) :
    ∃ call ∈ history, data = call.signed := by
  obtain ⟨-, coding, fragment, hencoded, hcovered⟩ := verifyMeteringData_ok h
  have hsigned := signed_of_covered (P := fun element => ∃ call ∈ history,
    toFragmentWith call.signed .literal = .ok element.fragment) hhash hxmldsig ?_ hcovered
  · obtain ⟨call, hmem, hsame⟩ := hsigned
    exact ⟨call, hmem, hfragment _ _ _ _ _ hencoded hsame⟩
  · intro suite data value hverified
    obtain ⟨call, hmem, signature', hsign, rfl, hdata, -⟩ := hverifier _ _ _ hverified
    obtain ⟨fragment', hfragment', hsign⟩ := bind_eq_ok.mp hsign
    refine ⟨⟨_, fragment'⟩, call.signer, signature', ⟨call, hmem, ?_⟩, hsign, hdata⟩
    exact mapError_eq_ok.mp hfragment'

end Iso20

/-- **No receipt is forged, and none is an authorization.** Assume the hash has no collisions, the
codecs are lossless and write a receipt as they write no authorization, and the verifiers accept
only what was signed: in -2 by one contract key, for authorizations and receipts alike, in -20 by
the station. Then a -2 receipt that passes for a reading and a session was signed as that receipt,
and states both; an authorization that passes was signed as that authorization, for its challenge.
And in -20, when the vehicle has verified the data it confirms and the station accepts the
confirmation for what it issued, the station signed what it issued, for that session. -/
theorem metering_not_forged (hash : Hash) (toFragment2 : Encode AuthorizationReq)
    (toReceipt2 : Encode Iso2.MeteringReceiptReq) (toXmldsig2 : Encode SignedInfo)
    (toFragment20 : Encode Iso20.SignedMeteringData) (toXmldsig20 : Encode SignedInfo)
    (history2 : List Iso2.KeyUse) (history20 : List Iso20.MeteringCall)
    (verifier2 verifier20 : Verify)
    (hhash : ∀ suite, Function.Injective (hash suite))
    (hfragment2 : Lossless toFragment2) (hreceipt2 : Lossless toReceipt2)
    (hapart2 : Apart toReceipt2 toFragment2) (hxmldsig2 : Lossless toXmldsig2)
    (hfragment20 : Lossless toFragment20) (hxmldsig20 : Lossless toXmldsig20)
    (hverifier2 : ∀ suite data value, verifier2 suite data value = .ok () →
      ∃ use ∈ history2, use.Produced toFragment2 toReceipt2 toXmldsig2 hash suite data value)
    (hverifier20 : ∀ suite data value, verifier20 suite data value = .ok () →
      ∃ call ∈ history20, call.Produced toFragment20 toXmldsig20 hash suite data value) :
    (∀ receipt signature issued session,
      Iso2.verifyMeteringReceipt toReceipt2 toXmldsig2 hash verifier2 receipt signature issued
          session = .ok () →
        ∃ call, .receipt call ∈ history2 ∧ receipt = call.signed ∧ receipt.meterInfo = issued
          ∧ SessionId.fromSlice receipt.sessionId = some session)
      ∧ (∀ request signature c,
        Iso2.verifyAuthorization toFragment2 toXmldsig2 hash verifier2 request signature c
            = .ok () →
          ∃ call, .authorization call ∈ history2 ∧ request = call.signed ∧ call.challenge = c)
      ∧ ∀ data signature session accepted header issued,
        Iso20.verifyMeteringData toFragment20 toXmldsig20 hash verifier20 data signature session
            accepted = .ok () →
          Iso20.verifyMeteringConfirmation ⟨header, data⟩ issued = .ok () →
            ∃ call ∈ history20, issued = call.signed
              ∧ SessionId.fromSlice issued.sessionId = some session := by
  refine ⟨?_, ?_, ?_⟩
  -- a receipt that verifies: what its signature covers was signed as a receipt, or as an
  -- authorization, which has another fragment
  · intro receipt signature issued session h
    obtain ⟨hsession, hecho, id, coding, fragment, -, hencoded, hcovered⟩ :=
      Iso2.verifyMeteringReceipt_ok h
    obtain ⟨use, hmem, hfragment⟩ :=
      Iso2.exists_use_of_covered hhash hxmldsig2 hverifier2 hcovered
    cases use with
    | authorization call => exact absurd hfragment (hapart2 _ _ _ _ _ hencoded)
    | receipt call =>
      exact ⟨call, hmem, hreceipt2 _ _ _ _ _ hencoded hfragment, hecho, hsession⟩
  -- an authorization that verifies, the same way
  · intro request signature c h
    obtain ⟨hecho, id, coding, fragment, -, hencoded, hcovered⟩ := Iso2.verifyAuthorization_ok h
    obtain ⟨use, hmem, hfragment⟩ :=
      Iso2.exists_use_of_covered hhash hxmldsig2 hverifier2 hcovered
    cases use with
    | authorization call =>
      have hrequest := hfragment2 _ _ _ _ _ hencoded hfragment
      refine ⟨call, hmem, hrequest, ?_⟩
      rw [hrequest] at hecho
      exact congrArg GenChallenge.mk (Bytes.ext (Option.some.inj hecho))
    | receipt call => exact absurd hencoded (hapart2 _ _ _ _ _ hfragment)
  -- data that verify and are confirmed are those issued
  · intro data signature session accepted header issued h hconfirmed
    obtain rfl : data = issued := checkEcho_eq_ok.mp hconfirmed
    obtain ⟨call, hmem, hdata⟩ :=
      Iso20.signed_of_verifyMeteringData hhash hxmldsig20 hfragment20 hverifier20 h
    exact ⟨call, hmem, hdata, (Iso20.verifyMeteringData_ok h).1⟩

/-! ## One charge of each generation

A receipt and an authorization of the same key, and metering data, with a hash that tells their
fragments apart. -/

namespace Sample

def session : SessionId := ⟨[0x5a, 0x11, 0x5e, 0x55, 0x10, 0x4e, 0x49, 0xd0], rfl⟩

def reading2 : Iso2.MeterInfo := ⟨"M1", some 12000, none, none, none⟩

/-- The vehicle leaves the id to the default. -/
def receiptCall : Iso2.ReceiptCall :=
  ⟨⟨none, session.toList, some 1, reading2⟩, fun _ _ => .ok signatureValue⟩

def receiptFragment : List UInt8 :=
  [0x80, 0x79, 0x01, 0x52, 0x51, 0x0C, 0x40, 0x83, 0xD4, 0xCB, 0xF9, 0x33, 0x74, 0xED, 0x89, 0xB0,
    0x00, 0x00, 0x44, 0xD3, 0x10, 0x70, 0x2E, 0x9B, 0xD0]

def meteringCall : Iso20.MeteringCall :=
  ⟨.ecdsaSha256,
    ⟨"", session.toList, ⟨"M1", 12000, none, none, none, none, none, none⟩, none,
      .dynamicSmdtControlMode⟩,
    fun _ _ => .ok signatureValue⟩

def dataFragment : List UInt8 :=
  [0x80, 0x74, 0x01, 0x52, 0x51, 0x0C, 0x40, 0x83, 0xD4, 0xCB, 0xF9, 0x33, 0x74, 0xED, 0x89, 0xB0,
    0x04, 0x4D, 0x31, 0x1C, 0x0B, 0xAC, 0x91, 0xA0]

/-- A signature with the sample's value over one element of this digest. -/
def signatureOver (digest : List UInt8) : Signature :=
  ⟨none, signedInfo digest, ⟨none, signatureValue⟩⟩

/-- A hash without collisions: six bytes for the two fragments, which no other digest starts
like. -/
def meteringHash : Hash := fun _ data =>
  if data = receiptFragment then digest
  else if data = dataFragment then otherDigest
  else 0x00 :: data

theorem meteringHash_injective (suite : Suite) : Function.Injective (meteringHash suite) := by
  intro a b h
  unfold meteringHash at h
  split_ifs at h with ha hb hb ha' hb hb hb hb
  · rw [ha, hb]
  · exact absurd h (by decide)
  · exact absurd (congrArg List.head? h) (by simp [digest])
  · exact absurd h (by decide)
  · rw [ha', hb]
  · exact absurd (congrArg List.head? h) (by simp [otherDigest])
  · exact absurd (congrArg List.head? h) (by simp [digest])
  · exact absurd (congrArg List.head? h) (by simp [otherDigest])
  · exact List.cons_injective h

/-- What is written for the one value and for the other is not the same. -/
theorem apart_only {α β : Type} [DecidableEq α] [DecidableEq β] {a : α} {b : β}
    {bytes bytes' : List UInt8} (h : bytes ≠ bytes') :
    Apart (only a fun _ => bytes) (only b fun _ => bytes') := by
  intro x y coding coding' out hx hy
  obtain ⟨-, hx⟩ := require_eq_ok.mp hx
  obtain ⟨-, hy⟩ := require_eq_ok.mp hy
  exact h ((Except.ok.inj hx).trans (Except.ok.inj hy).symm)

end Sample

/-- The receipt of the sample passes for its reading and its session, and so do the data. -/
theorem metering_accepted_iff_sample :
    Iso2.verifyMeteringReceipt
        (Sample.only Sample.receiptCall.signed fun _ => Sample.receiptFragment) Sample.xmldsig
        (fun _ _ => Sample.digest) (Sample.verifier Sample.signedBytes) Sample.receiptCall.signed
        (Sample.signatureOver Sample.digest) Sample.reading2
        Sample.session = .ok ()
      ∧ Iso20.verifyMeteringData
        (Sample.only Sample.meteringCall.signed fun _ => Sample.dataFragment) Sample.xmldsig
        (fun _ _ => Sample.digest) (Sample.verifier Sample.signedBytes) Sample.meteringCall.signed
        (Sample.signatureOver Sample.digest) Sample.session [.ecdsaSha256] = .ok () := by
  have hboth := metering_accepted_iff
    (Sample.only Sample.receiptCall.signed fun _ => Sample.receiptFragment)
    (Sample.only Sample.meteringCall.signed fun _ => Sample.dataFragment) Sample.xmldsig
    (fun _ _ => Sample.digest) (Sample.signer Sample.signedBytes)
    (Sample.verifier Sample.signedBytes) (Sample.verifier_accepts _)
  constructor
  · exact (hboth.1 Sample.receiptCall.receipt _ _ _ _ (by decide +kernel)).mpr
      ⟨rfl, by decide +kernel⟩
  · exact (hboth.2 .ecdsaSha256 _ Sample.meteringCall.data _ _ _ ⟨[], []⟩
      Sample.meteringCall.signed (by decide) (by decide +kernel)).1.mpr (by decide +kernel)

/-- A contract key that has signed one authorization and one receipt, and a station that has signed
one reading: what passes is these. -/
theorem metering_not_forged_sample :
    (∃ call, Iso2.KeyUse.receipt call
          ∈ [.authorization Sample.call2, .receipt Sample.receiptCall]
        ∧ Sample.receiptCall.signed = call.signed
        ∧ Sample.receiptCall.signed.meterInfo = Sample.reading2
        ∧ SessionId.fromSlice Sample.receiptCall.signed.sessionId = some Sample.session)
      ∧ ∃ call ∈ [Sample.meteringCall], Sample.meteringCall.signed = call.signed
        ∧ SessionId.fromSlice Sample.meteringCall.signed.sessionId = some Sample.session := by
  have hall := metering_not_forged Sample.meteringHash
    (Sample.only Sample.call2.signed fun _ => Sample.fragment2)
    (Sample.only Sample.receiptCall.signed fun _ => Sample.receiptFragment) Sample.xmldsig
    (Sample.only Sample.meteringCall.signed fun _ => Sample.dataFragment) Sample.xmldsig20
    [.authorization Sample.call2, .receipt Sample.receiptCall] [Sample.meteringCall]
    (Sample.verifier Sample.signedBytes)
    (Sample.verifier (Sample.signedInfoBytes [0xC2, 0x24, 0x46, 0x68, 0x8A, 0xAC, 0xC3, 0x70] []
      .literal))
    Sample.meteringHash_injective (Sample.lossless_only _ _) (Sample.lossless_only _ _)
    (Sample.apart_only (by decide)) (Sample.lossless_only _ _) (Sample.lossless_only _ _)
    (Sample.lossless_only _ _) ?_ ?_
  · constructor
    · exact hall.1 _ (Sample.signatureOver Sample.digest) _ _ (by decide +kernel)
    · exact hall.2.2 Sample.meteringCall.signed (Sample.signatureOver Sample.otherDigest) _
        [.ecdsaSha256] ⟨[], []⟩ _ (by decide +kernel) (by decide +kernel)
  · intro suite data value h
    obtain ⟨rfl, rfl, rfl⟩ := Sample.of_verifier_ok h
    exact ⟨.receipt Sample.receiptCall, List.mem_of_mem_tail (List.mem_singleton_self _),
      Sample.signatureOver Sample.digest, by decide +kernel, rfl, by decide +kernel, rfl⟩
  · intro suite data value h
    obtain ⟨rfl, rfl, rfl⟩ := Sample.of_verifier_ok h
    exact ⟨Sample.meteringCall, List.mem_singleton_self _, Sample.signatureOver Sample.otherDigest,
      by decide +kernel, rfl, by decide +kernel, rfl⟩

end Iso15118.Pnc
