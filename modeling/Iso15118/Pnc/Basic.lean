import Iso15118.Exi.Basic

/-!
# Plug & Charge: suites and refusals

The signature suites of `pnc/mod.rs` and every reason a signature, a challenge or a certificate
is refused. The crypto itself is the caller's: hashing, signing and verifying are parameters
wherever they are used.
-/

namespace Iso15118.Pnc

/-- The signature suites ISO 15118 defines. -/
inductive Suite where
  | ecdsaSha256
  | ecdsaSha512
  deriving DecidableEq, Repr

namespace Suite

def signatureAlgorithm : Suite → String
  | ecdsaSha256 => "http://www.w3.org/2001/04/xmldsig-more#ecdsa-sha256"
  | ecdsaSha512 => "http://www.w3.org/2001/04/xmldsig-more#ecdsa-sha512"

def digestAlgorithm : Suite → String
  | ecdsaSha256 => "http://www.w3.org/2001/04/xmlenc#sha256"
  | ecdsaSha512 => "http://www.w3.org/2001/04/xmlenc#sha512"

def fromSignatureAlgorithm (uri : String) : Option Suite :=
  [ecdsaSha256, ecdsaSha512].find? fun s => s.signatureAlgorithm = uri

theorem signatureAlgorithm_of_from {uri : String} {suite : Suite}
    (h : fromSignatureAlgorithm uri = some suite) : suite.signatureAlgorithm = uri := by
  have hfound := List.find?_some h
  exact of_decide_eq_true hfound

end Suite

/-- Why a signature could not be built or could not be trusted. -/
inductive PncError where
  | exi (e : Exi.ExiError)
  | unsupportedAlgorithm (uri : String)
  | badCanonicalization (uri : String)
  | missingUri
  | unknownReference
  | referenceMismatch (references elements : Nat)
  | badTransforms
  | tooManyReferences (references : Nat)
  | forbiddenField (field : String)
  | digestMismatch (id : String)
  | badSignature
  | badEnvelope (len : Nat)
  | keyMismatch
  | badChallengeLength (len : Nat)
  | challengeMismatch
  | missingId
  | missingChallenge
  | sessionMismatch
  | notAsIssued (field : String)
  | backend (what : String)
  deriving DecidableEq, Repr

end Iso15118.Pnc
