import Iso15118.Pnc.Pki.Cert

/-!
# Walking a chain to a trust anchor

`validate` of `pnc/pki/chain.rs`, with the profiles and rules of `pnc/pki/mod.rs`: the chain that
arrived, leaf first, is parsed, its leaf held against a profile, and walked up until a
certificate is one that a configured anchor issued.

* **`findAnchor`** — the anchor that issued a certificate, if this side holds it;
* **`walk`** — the loop: at each certificate either an anchor, or the next one is the issuer;
* **`validate`** — the decision, and the path it returns.
-/

namespace Iso15118.Pnc.Pki

/-! ## What a chain is validated for

The policy is the caller's: a profile for the leaf, and the rules of a generation. Errors name
the position in the chain where that matters. -/

/-- Verifies a signature against a public key that arrived in a certificate: suite, key, data,
raw signature. -/
abbrev VerifyWith := Suite → List UInt8 → List UInt8 → List UInt8 → Except PncError Unit

/-- Which generation's rules apply. -/
inductive Rules where
  | iso2
  | iso20
  deriving DecidableEq, Repr

/-- Which profile the leaf is supposed to meet. -/
inductive Profile where
  | seccCertificate
  | contractCertificate
  | oemProvisioningCertificate
  | unchecked
  deriving DecidableEq, Repr

structure Policy where
  profile : Profile
  rules : Rules
  deriving DecidableEq

structure TrustAnchor where
  der : List UInt8
  /-- Where the anchor came from. -/
  source : String
  deriving DecidableEq

inductive ChainError where
  | certificate (index : Nat) (error : CertError)
  | empty
  | tooLong (len : Nat)
  | noTrustAnchor
  | expired (index : Nat)
  | notAnIssuer (index : Nat)
  | badSignature (index : Nat)
  | profile (wanted : String)
  | tooLarge (index len : Nat)
  | outlivesIssuer (index : Nat)
  | mixedCurves
  deriving DecidableEq, Repr

/-- A validated path. -/
structure Validated where
  leaf : Certificate
  /-- The intermediates, leaf first. -/
  intermediates : List Certificate
  /-- The trust anchor the path reached, and where it came from. -/
  anchor : Certificate
  anchorSource : String
  deriving DecidableEq

def maxPathLen : Nat := 3

def iso20MaxCertificateLen : Nat := 1600

/-! ## The leaf

The profile of the leaf: no CA, a key usage, and a domain component. -/

namespace Profile

def requiredKeyUsage : Profile → Option KeyUsage
  | seccCertificate => some .digitalSignature
  | contractCertificate => some (KeyUsage.digitalSignature.and .nonRepudiation)
  | oemProvisioningCertificate => some .digitalSignature
  | unchecked => none

def requiredDomainComponent : Profile → Option String
  | seccCertificate => some "CPO"
  | _ => none

def checkKeyUsage (p : Profile) (leaf : Certificate) : Except ChainError Unit :=
  match p.requiredKeyUsage with
  | none => .ok ()
  | some wanted =>
      match leaf.keyUsage with
      | none => .error (.profile "a KeyUsage")
      | some usage =>
          if ¬ usage.contains wanted then .error (.profile "the KeyUsage bits its profile requires")
          else .ok ()

def checkDomainComponent (p : Profile) (leaf : Certificate) : Except ChainError Unit :=
  match p.requiredDomainComponent with
  | none => .ok ()
  | some wanted =>
      if leaf.subject.domainComponent ≠ some wanted then
        .error (.profile "the Domain Component its profile requires")
      else .ok ()

/-- Checks a leaf against this profile. -/
def checkLeaf (p : Profile) (leaf : Certificate) : Except ChainError Unit :=
  if leaf.basicConstraints.any (·.ca) then .error (.profile "a leaf that is not a CA")
  else do
    p.checkKeyUsage leaf
    p.checkDomainComponent leaf

end Profile

/-! ## One link

The conditions on an issuer and on the certificate under it, each with its own error. -/

/-- Whether `issuer` was allowed to sign the certificate `below` positions under it. -/
def checkIssuer (issuer : Certificate) (below index : Nat) : Except ChainError Unit :=
  match issuer.basicConstraints with
  | none => .error (.notAnIssuer index)
  | some constraints =>
      if ¬ constraints.ca then .error (.notAnIssuer index)
      else if constraints.pathLen.any (fun limit => below > limit) then .error (.notAnIssuer index)
      else if issuer.keyUsage.any (fun usage => ¬ usage.contains .keyCertSign) then
        .error (.notAnIssuer index)
      else .ok ()

def verifySignature (verifier : VerifyWith) (cert issuer : Certificate) (index : Nat) :
    Except ChainError Unit :=
  (verifier issuer.curve.suite issuer.publicKey cert.tbs cert.signature).mapError
    fun _ => .badSignature index

/-- Whether `cert`'s validity lies within `issuer`'s, as the rules require. -/
def nests (rules : Rules) (cert issuer : Certificate) : Bool :=
  match rules with
  | .iso2 => true
  | .iso20 => issuer.notBefore ≤ cert.notBefore ∧ cert.notAfter ≤ issuer.notAfter

/-! ## The walk

At each certificate the anchors are tried first. Only if none of them issued it does the next
certificate of the chain have to. -/

section Walk

variable (verifier : VerifyWith) (anchors : List TrustAnchor) (rules : Rules) (now : Int)

/-- Tries the anchors one after another. Every condition is part of the selection; `outlived`
remembers that a matching anchor was passed over because the certificate outlives it. -/
def findAnchorFrom (cert : Certificate) (below index : Nat) (outlived : Bool) :
    List TrustAnchor → Except ChainError (Certificate × String)
  | [] => if outlived then .error (.outlivesIssuer index) else .error .noTrustAnchor
  | entry :: rest =>
      match Certificate.parse entry.der with
      | .error _ => findAnchorFrom cert below index outlived rest
      | .ok anchor =>
          if anchor.subject.encoded ≠ cert.issuer.encoded then
            findAnchorFrom cert below index outlived rest
          else if ¬ anchor.isValidAt now then findAnchorFrom cert below index outlived rest
          else if checkIssuer anchor below index ≠ .ok () then
            findAnchorFrom cert below index outlived rest
          else if ¬ nests rules cert anchor then findAnchorFrom cert below index true rest
          else if verifySignature verifier cert anchor index = .ok () then
            .ok (anchor, entry.source)
          else findAnchorFrom cert below index outlived rest

/-- Finds the anchor that issued `cert`, if this side holds it. -/
def findAnchor (cert : Certificate) (below index : Nat) :
    Except ChainError (Certificate × String) :=
  findAnchorFrom verifier rules now cert below index false anchors

/-- The next certificate of the chain has to be the issuer. -/
def checkLink (cert issuer : Certificate) (index : Nat) : Except ChainError Unit :=
  if issuer.subject.encoded ≠ cert.issuer.encoded then .error .noTrustAnchor
  else do
    checkIssuer issuer index (index + 1)
    verifySignature verifier cert issuer index
    if ¬ nests rules cert issuer then .error (.outlivesIssuer index) else .ok ()

/-- Walks up, leaf first, from the certificate at `index`. -/
def walk (index : Nat) : List Certificate → Except ChainError (Certificate × String)
  | [] => .error .noTrustAnchor
  | cert :: above =>
      match findAnchor verifier anchors rules now cert index index with
      | .ok found => .ok found
      | .error e =>
          match above with
          | [] => .error e
          | issuer :: _ => do
              checkLink verifier rules cert issuer index
              walk (index + 1) above

end Walk

/-! ## The decision

Everything that can be refused without a signature comes first. -/

/-- Parses every certificate, naming which one failed. -/
def parseAll (chain : List (List UInt8)) : Except ChainError (List Certificate) :=
  chain.zipIdx.mapM fun (der, index) => (Certificate.parse der).mapError (.certificate index)

/-- The first certificate that is too large for the rules, which is refused before any is
parsed. -/
def oversized (rules : Rules) (chain : List (List UInt8)) : Option (List UInt8 × Nat) :=
  match rules with
  | .iso2 => none
  | .iso20 => chain.zipIdx.find? fun entry => entry.1.length > iso20MaxCertificateLen

/-- Every certificate is inside its validity period. -/
def checkValidity (certs : List Certificate) (now : Int) : Except ChainError Unit :=
  match certs.zipIdx.find? fun entry => ¬ entry.1.isValidAt now with
  | some (_, index) => .error (.expired index)
  | none => .ok ()

/-- Checks that `chain` leads from a leaf to one of `anchors`, at time `now`, under `policy`. -/
def validate (verifier : VerifyWith) (chain : List (List UInt8)) (anchors : List TrustAnchor)
    (policy : Policy) (now : Int) : Except ChainError Validated :=
  if chain.length > maxPathLen then .error (.tooLong chain.length)
  else
    match oversized policy.rules chain with
    | some (der, index) => .error (.tooLarge index der.length)
    | none => do
        let parsed ← parseAll chain
        match parsed with
        | [] => .error .empty
        | leaf :: intermediates => do
            policy.profile.checkLeaf leaf
            if parsed.any (fun c => c.curve ≠ leaf.curve) then .error .mixedCurves
            else do
              checkValidity parsed now
              let (anchor, anchorSource) ← walk verifier anchors policy.rules now 0 parsed
              -- what is returned is the chain that arrived, wherever the anchor was found
              return { leaf, intermediates, anchor, anchorSource }

end Iso15118.Pnc.Pki
