import Iso15118.Lib.Wire
import Iso15118.Pnc.Coverage

/-!
# Authorization against a challenge

The station picks sixteen random bytes, the vehicle signs them back (`pnc/challenge.rs`,
`sign_authorization` and `verify_authorization` of both generations). A signature that is merely
valid may be last week's; one over this session's challenge is not.

* **`GenChallenge`** — the nonce, compared without an early return;
* **`Iso2.signAuthorization`**, **`Iso20.signAuthorization`** — the element filled in, and the
  signature over it;
* **`Iso2.verifyAuthorization`**, **`Iso20.verifyAuthorization`** — the echo and the signature in
  one call.
-/

namespace Iso15118.Pnc

open Iso15118.Lib Iso15118.Exi

structure GenChallenge where
  bytes : Bytes 16
  deriving DecidableEq

/-- `echoed` is this challenge. -/
def GenChallenge.matchesEcho (c : GenChallenge) (echoed : List UInt8) : Bool :=
  digestsEqual c.bytes.toList echoed

theorem GenChallenge.matchesEcho_iff (c : GenChallenge) (echoed : List UInt8) :
    c.matchesEcho echoed = true ↔ echoed = c.bytes.toList := by
  unfold matchesEcho
  rw [digestsEqual_iff]
  exact eq_comm

/-- The `Id` of a signed element when the caller has not chosen one. -/
def defaultId : String := "ID1"

/-! ## ISO 15118-2

The request carries the challenge and the id itself, and the fragment signed is the request.
Signing fills in what the caller has left out. -/

structure AuthorizationReq where
  id : Option String
  genChallenge : Option (List UInt8)
  deriving DecidableEq

namespace Iso2

section

variable (toFragmentWith : Encode AuthorizationReq) (toXmldsigFragmentWith : Encode SignedInfo)
  (hash : Hash)

/-- The request as it is signed. -/
def fillRequest (request : AuthorizationReq) (challenge : GenChallenge) : AuthorizationReq where
  id := some (request.id.getD defaultId)
  genChallenge := some challenge.bytes.toList

/-- Signs an `AuthorizationReq` against the station's challenge: the request as it was filled in,
and the signature over it. -/
def signAuthorization (signer : Sign) (request : AuthorizationReq) (challenge : GenChallenge) :
    AuthorizationReq × Except PncError Signature :=
  let request := fillRequest request challenge
  let id := request.id.getD ""
  (request, do
    let fragment ← encoded (toFragmentWith request .literal)
    sign toXmldsigFragmentWith hash signer [⟨id, fragment⟩])

/-- Checks an `AuthorizationReq` against the challenge that was issued for it. Both the covered
fragment and `SignedInfo` are rebuilt per coding. -/
def verifyAuthorization (verifier : Verify) (request : AuthorizationReq) (signature : Signature)
    (challenge : GenChallenge) : Except PncError Unit :=
  match request.genChallenge with
  | none => .error .missingChallenge
  | some echoed =>
      if ¬ challenge.matchesEcho echoed then .error .challengeMismatch
      else
        match request.id with
        | none => .error .missingId
        | some id =>
            eitherCoding fun coding => do
              let fragment ← encoded (toFragmentWith request coding)
              verifyWith toXmldsigFragmentWith hash verifier signature [⟨id, fragment⟩] coding

end

end Iso2

/-! ## ISO 15118-20

The same for the mode inside the request. An id that is missing or empty is replaced before the
signature. -/

structure ContractCertificateChain where
  certificate : List UInt8
  subCertificates : List (List UInt8)
  deriving DecidableEq

structure PnCAReqAuthorizationMode where
  id : String
  genChallenge : List UInt8
  contractCertificateChain : ContractCertificateChain
  deriving DecidableEq

namespace Iso20

section

variable (toFragmentWith : Encode PnCAReqAuthorizationMode)
  (toXmldsigFragmentWith : Encode SignedInfo) (hash : Hash)

/-- The mode as it is signed. -/
def fillMode (mode : PnCAReqAuthorizationMode) (challenge : GenChallenge) :
    PnCAReqAuthorizationMode :=
  { mode with
    id := if mode.id.isEmpty then defaultId else mode.id
    genChallenge := challenge.bytes.toList }

/-- Signs a `PnC_AReqAuthorizationMode` against the station's challenge. -/
def signAuthorization (signer : Sign) (suite : Suite) (mode : PnCAReqAuthorizationMode)
    (challenge : GenChallenge) : PnCAReqAuthorizationMode × Except PncError Signature :=
  let mode := fillMode mode challenge
  (mode, do
    let fragment ← encoded (toFragmentWith mode .literal)
    sign toXmldsigFragmentWith hash signer suite [⟨mode.id, fragment⟩])

/-- Checks a `PnC_AReqAuthorizationMode` against the challenge issued for it. -/
def verifyAuthorization (verifier : Verify) (mode : PnCAReqAuthorizationMode)
    (signature : Signature) (challenge : GenChallenge) (accepted : List Suite) :
    Except PncError Unit :=
  if ¬ challenge.matchesEcho mode.genChallenge then .error .challengeMismatch
  else if mode.id.isEmpty then .error .missingId
  else
    eitherCoding fun coding => do
      let fragment ← encoded (toFragmentWith mode coding)
      verifyWith toXmldsigFragmentWith hash verifier signature [⟨mode.id, fragment⟩] accepted coding

end

end Iso20

/-! ## What is checked

Each check of a verification that succeeded, as a fact about its arguments. The signature is over
one element only, so what it covers is that element. -/

/-- -2: the request echoes the challenge and has an id, and under one coding the signature covers
exactly its fragment. -/
theorem Iso2.verifyAuthorization_ok {toFragmentWith : Encode AuthorizationReq}
    {toXmldsigFragmentWith : Encode SignedInfo} {hash : Hash} {verifier : Verify}
    {request : AuthorizationReq} {signature : Signature} {challenge : GenChallenge}
    (h : verifyAuthorization toFragmentWith toXmldsigFragmentWith hash verifier request signature
      challenge = .ok ()) :
    request.genChallenge = some challenge.bytes.toList
      ∧ ∃ id coding fragment, request.id = some id ∧ toFragmentWith request coding = .ok fragment
        ∧ Covered toXmldsigFragmentWith hash verifier [.ecdsaSha256] signature
          [⟨id, fragment⟩] := by
  unfold verifyAuthorization at h
  split at h
  · cases h
  · next echoed hechoed =>
    obtain ⟨hmatch, h⟩ := refuse_eq_ok.mp h
    split at h
    · cases h
    · next id hid =>
      obtain ⟨coding, h⟩ := exists_coding h
      obtain ⟨fragment, hfragment, h⟩ := bind_eq_ok.mp h
      refine ⟨?_, id, coding, fragment, hid, mapError_eq_ok.mp hfragment, covered_of_verifyWith h⟩
      rw [hechoed, (challenge.matchesEcho_iff echoed).mp (not_not.mp hmatch)]

/-- -20: the same, and the id is not empty. -/
theorem Iso20.verifyAuthorization_ok {toFragmentWith : Encode PnCAReqAuthorizationMode}
    {toXmldsigFragmentWith : Encode SignedInfo} {hash : Hash} {verifier : Verify}
    {mode : PnCAReqAuthorizationMode} {signature : Signature} {challenge : GenChallenge}
    {accepted : List Suite}
    (h : verifyAuthorization toFragmentWith toXmldsigFragmentWith hash verifier mode signature
      challenge accepted = .ok ()) :
    mode.genChallenge = challenge.bytes.toList
      ∧ ∃ coding fragment, toFragmentWith mode coding = .ok fragment
        ∧ Covered toXmldsigFragmentWith hash verifier accepted signature
          [⟨mode.id, fragment⟩] := by
  unfold verifyAuthorization at h
  obtain ⟨hmatch, h⟩ := refuse_eq_ok.mp h
  obtain ⟨-, h⟩ := refuse_eq_ok.mp h
  obtain ⟨coding, h⟩ := exists_coding h
  obtain ⟨fragment, hfragment, h⟩ := bind_eq_ok.mp h
  exact ⟨(challenge.matchesEcho_iff _).mp (not_not.mp hmatch), coding, fragment,
    mapError_eq_ok.mp hfragment, covered_of_verifyWith h⟩

end Iso15118.Pnc
