import Iso15118.Lib.Greedy
import Iso15118.Pnc.Basic

/-!
# Signatures over EXI fragments

`pnc/mod.rs`, with `sign` and `verify` of `pnc/iso2.rs` and `pnc/iso20.rs`. The two generations
carry the same `ds:Signature` and differ in one rule: -2 has a single suite, -20 takes the
caller's list.

The crypto is the caller's, so **`Hash`**, **`Sign`** and **`Verify`** are parameters; so is what
a codec writes for an element, **`Encode`**.

* **`pair`** — references against elements, in both directions;
* **`verifyWith`** — everything a signature is held against, under one coding;
* **`eitherCoding`** — the coding the field writes, then the one Canonical EXI asks for.
-/

namespace Iso15118.Pnc

open Iso15118.Lib Iso15118.Exi

/-! ## What a signature is made of

The parts of `ds:Signature`, with the fields that the profile forbids. -/

structure CanonicalizationMethod where
  algorithm : String
  deriving DecidableEq

structure SignatureMethod where
  algorithm : String
  hmacOutputLength : Option Int
  deriving DecidableEq

structure Transform where
  algorithm : String
  deriving DecidableEq

structure Transforms where
  transform : List Transform
  deriving DecidableEq

structure DigestMethod where
  algorithm : String
  deriving DecidableEq

structure Reference where
  id : Option String
  type : Option String
  uri : Option String
  transforms : Option Transforms
  digestMethod : DigestMethod
  digestValue : List UInt8
  deriving DecidableEq

structure SignedInfo where
  id : Option String
  canonicalizationMethod : CanonicalizationMethod
  signatureMethod : SignatureMethod
  reference : List Reference
  deriving DecidableEq

structure SignatureValue where
  id : Option String
  value : List UInt8
  deriving DecidableEq

structure Signature where
  id : Option String
  signedInfo : SignedInfo
  signatureValue : SignatureValue
  deriving DecidableEq

/-- One element a signature covers: its `Id`, and the element as an EXI fragment. -/
structure Signed where
  id : String
  fragment : List UInt8
  deriving DecidableEq

/-! ## What the caller supplies

Hashing, signing, verifying and the codec of an element are not part of this code. -/

abbrev Hash := Suite → List UInt8 → List UInt8

abbrev Sign := Suite → List UInt8 → Except PncError (List UInt8)

abbrev Verify := Suite → List UInt8 → List UInt8 → Except PncError Unit

/-- The bytes a codec writes for a value, under one coding. -/
abbrev Encode (α : Type) := α → ValueCoding → Except ExiError (List UInt8)

/-! ## The profile checks

What the profile says of algorithms and transforms, check by check. -/

def canonicalExi : String := "http://www.w3.org/TR/canonical-exi/"

def maxSignedElements : Nat := 4

/-- Compares two digests without revealing where they first differ. -/
def digestsEqual (a b : List UInt8) : Bool :=
  if a.length ≠ b.length then false
  else (List.zip a b).foldl (fun diff xy => diff ||| (xy.1 ^^^ xy.2)) 0 = 0

/-- The `Reference/@URI` for an element id. -/
def referenceUri (id : String) : String := "#" ++ id

/-- The id a same-document URI points at. -/
def stripHash (uri : String) : Option String :=
  match uri.toList with
  | '#' :: id => some (String.ofList id)
  | _ => none

def checkCanonicalization (algorithm : String) : Except PncError Unit :=
  if algorithm = canonicalExi then .ok () else .error (.badCanonicalization algorithm)

/-- Exactly one transform, and it is canonical EXI. -/
def checkTransforms : Option (List String) → Except PncError Unit
  | some [only] => checkCanonicalization only
  | _ => .error .badTransforms

/-- Resolves `SignatureMethod` to a suite the caller accepts. -/
def checkSuite (algorithm : String) (hmacOutputLength : Option Int) (accepted : List Suite) :
    Except PncError Suite :=
  match (Suite.fromSignatureAlgorithm algorithm).filter (· ∈ accepted) with
  | none => .error (.unsupportedAlgorithm algorithm)
  | some suite =>
      if hmacOutputLength.isSome then .error (.unsupportedAlgorithm algorithm) else .ok suite

/-- The three attributes the profile forbids and the schema still carries. -/
def checkForbidden (signedInfoId signatureValueId : Option String)
    (referenceTypes : List (Option String)) : Except PncError Unit :=
  if signedInfoId.isSome then .error (.forbiddenField "SignedInfo/@Id")
  else if signatureValueId.isSome then .error (.forbiddenField "SignatureValue/@Id")
  else if referenceTypes.any (·.isSome) then .error (.forbiddenField "Reference/@Type")
  else .ok ()

/-- Checks one `Reference` against the element it claims to cover. -/
def checkReference (hash : Hash) (suite : Suite) (digestAlgorithm : String)
    (digestValue : List UInt8) (element : Signed) : Except PncError Unit :=
  if digestAlgorithm ≠ suite.digestAlgorithm then .error (.unsupportedAlgorithm digestAlgorithm)
  else if digestsEqual (hash suite element.fragment) digestValue then .ok ()
  else .error (.digestMismatch element.id)

/-! ## References and elements

The pairing claims an element for each reference, and in the end there must be none left over. -/

/-- The unused element a reference names, with its place. -/
def claimElement {R : Type} (uriOf : R → Option String) (elements : List Signed) (used : List Bool)
    (reference : R) : Except PncError (Nat × Signed) :=
  match (uriOf reference).bind stripHash with
  | none => .error .missingUri
  | some id =>
      -- an element already used does not count: two references cannot name it while another
      -- goes uncovered
      match elements.zipIdx.find? fun entry => entry.1.id = id ∧ used[entry.2]? = some false with
      | none => .error .unknownReference
      | some (element, index) => .ok (index, element)

/-- Matches supplied elements to a signature's references, in both directions. -/
def pair {R : Type} (references : List R) (uriOf : R → Option String) (elements : List Signed) :
    Except PncError (List (R × Signed)) :=
  if references.length > maxSignedElements then .error (.tooManyReferences references.length)
  else if references.length ≠ elements.length then
    .error (.referenceMismatch references.length elements.length)
  else
    claimEach (claimElement uriOf elements) (List.replicate elements.length false) references

/-! ## Building and checking

Building takes the elements in order; checking makes no use of that order. -/

/-- Runs a check under the coding the field writes and, only if the bytes did not match, once more
under the other. The first error is the one reported. -/
def eitherCoding {α : Type} (attempt : ValueCoding → Except PncError α) : Except PncError α :=
  match attempt .literal with
  | .error .badSignature => (attempt .referenced).mapError fun _ => .badSignature
  | .error (.digestMismatch id) => (attempt .referenced).mapError fun _ => .digestMismatch id
  | other => other

/-- The reference that covers an element. -/
def buildReference (hash : Hash) (suite : Suite) (element : Signed) : Reference where
  id := none
  type := none
  uri := some (referenceUri element.id)
  transforms := some ⟨[⟨canonicalExi⟩]⟩
  digestMethod := ⟨suite.digestAlgorithm⟩
  digestValue := hash suite element.fragment

/-- The `SignedInfo` the profile prescribes. -/
def buildSignedInfo (hash : Hash) (suite : Suite) (elements : List Signed) :
    Except PncError SignedInfo :=
  if elements.length > maxSignedElements then .error (.tooManyReferences elements.length)
  else
    .ok {
      id := none
      canonicalizationMethod := ⟨canonicalExi⟩
      signatureMethod := ⟨suite.signatureAlgorithm, none⟩
      reference := elements.map (buildReference hash suite) }

/-- What is encoded is encoded, or the error is the codec's. -/
def encoded {α : Type} (r : Except ExiError α) : Except PncError α := r.mapError .exi

/-- Builds the signature that covers `elements`, over the bytes the field signs. -/
def sign (toXmldsigFragmentWith : Encode SignedInfo) (hash : Hash) (signer : Sign) (suite : Suite)
    (elements : List Signed) : Except PncError Signature := do
  let signedInfo ← buildSignedInfo hash suite elements
  let canonical ← encoded (toXmldsigFragmentWith signedInfo .literal)
  let value ← signer suite canonical
  return { id := none, signedInfo := signedInfo, signatureValue := { id := none, value := value } }

def transformAlgorithms (transforms : Option Transforms) : Option (List String) :=
  transforms.map fun t => t.transform.map (·.algorithm)

/-- Checks a signature against the elements it is supposed to cover, under one coding of
`SignedInfo`. -/
def verifyWith (toXmldsigFragmentWith : Encode SignedInfo) (hash : Hash) (verifier : Verify)
    (accepted : List Suite) (signature : Signature) (elements : List Signed)
    (coding : ValueCoding) : Except PncError Unit := do
  let info := signature.signedInfo
  checkForbidden info.id signature.signatureValue.id (info.reference.map (·.type))
  checkCanonicalization info.canonicalizationMethod.algorithm
  let suite ← checkSuite info.signatureMethod.algorithm info.signatureMethod.hmacOutputLength
    accepted
  let paired ← pair info.reference (·.uri) elements
  paired.forM fun (reference, element) => do
    checkTransforms (transformAlgorithms reference.transforms)
    checkReference hash suite reference.digestMethod.algorithm reference.digestValue element
  let canonical ← encoded (toXmldsigFragmentWith info coding)
  verifier suite canonical signature.signatureValue.value

/-! ## The two generations

One definition with the suites as a parameter, under the names of both modules. -/

namespace Iso2

/-- The only suite -2 defines. -/
def suite : Suite := .ecdsaSha256

def sign (toXmldsigFragmentWith : Encode SignedInfo) (hash : Hash) (signer : Sign)
    (elements : List Signed) : Except PncError Signature :=
  Pnc.sign toXmldsigFragmentWith hash signer suite elements

def verifyWith (toXmldsigFragmentWith : Encode SignedInfo) (hash : Hash) (verifier : Verify)
    (signature : Signature) (elements : List Signed) (coding : ValueCoding) :
    Except PncError Unit :=
  Pnc.verifyWith toXmldsigFragmentWith hash verifier [suite] signature elements coding

def verify (toXmldsigFragmentWith : Encode SignedInfo) (hash : Hash) (verifier : Verify)
    (signature : Signature) (elements : List Signed) : Except PncError Unit :=
  eitherCoding (verifyWith toXmldsigFragmentWith hash verifier signature elements)

end Iso2

namespace Iso20

def sign (toXmldsigFragmentWith : Encode SignedInfo) (hash : Hash) (signer : Sign) (suite : Suite)
    (elements : List Signed) : Except PncError Signature :=
  Pnc.sign toXmldsigFragmentWith hash signer suite elements

def verifyWith (toXmldsigFragmentWith : Encode SignedInfo) (hash : Hash) (verifier : Verify)
    (signature : Signature) (elements : List Signed) (accepted : List Suite)
    (coding : ValueCoding) : Except PncError Unit :=
  Pnc.verifyWith toXmldsigFragmentWith hash verifier accepted signature elements coding

def verify (toXmldsigFragmentWith : Encode SignedInfo) (hash : Hash) (verifier : Verify)
    (signature : Signature) (elements : List Signed) (accepted : List Suite) :
    Except PncError Unit :=
  eitherCoding (verifyWith toXmldsigFragmentWith hash verifier signature elements accepted)

end Iso20

/-! ## A sample signature

One reference to `#ID1`, with what the codec writes for its `SignedInfo`: the canonical-EXI URI
occurs twice, and the codings differ in how they write the second occurrence. -/

namespace Sample

/-- The `SignedInfo` bytes up to the second occurrence of the URI. -/
def signedInfoHead : List UInt8 :=
  [
    0x80, 0x81, 0x12, 0xB4, 0x3A, 0x3A, 0x38, 0x1D, 0x17, 0x97, 0xBB, 0xBB, 0xBB, 0x97, 0x3B,
    0x99, 0x97, 0x37, 0xB9, 0x33, 0x97, 0xAA, 0x29, 0x17, 0xB1, 0xB0, 0xB7, 0x37, 0xB7, 0x34,
    0xB1, 0xB0, 0xB6, 0x16, 0xB2, 0xBC, 0x34, 0x97, 0xA1, 0xAB, 0x43, 0xA3, 0xA3, 0x81, 0xD1,
    0x79, 0x7B, 0xBB, 0xBB, 0xB9, 0x73, 0xB9, 0x99, 0x73, 0x7B, 0x93, 0x39, 0x79, 0x91, 0x81,
    0x81, 0x89, 0x79, 0x81, 0xA1, 0x7B, 0xC3, 0x6B, 0x63, 0x23, 0x9B, 0x4B, 0x39, 0x6B, 0x6B,
    0x7B, 0x93, 0x29, 0x1B, 0x2B, 0x1B, 0x23, 0x9B, 0x09, 0x6B, 0x9B, 0x43, 0x09, 0x91, 0xA9,
    0xB2, 0x20, 0x62, 0x34, 0x94, 0x43, 0x10]

/-- From there to the digest, with the URI written out. -/
def literalMiddle : List UInt8 :=
  [
    0x25, 0x68, 0x74, 0x74, 0x70, 0x3A, 0x2F, 0x2F, 0x77, 0x77, 0x77, 0x2E, 0x77, 0x33, 0x2E,
    0x6F, 0x72, 0x67, 0x2F, 0x54, 0x52, 0x2F, 0x63, 0x61, 0x6E, 0x6F, 0x6E, 0x69, 0x63, 0x61,
    0x6C, 0x2D, 0x65, 0x78, 0x69, 0x2F, 0x48, 0x52, 0xD0, 0xE8, 0xE8, 0xE0, 0x74, 0x5E, 0x5E,
    0xEE, 0xEE, 0xEE, 0x5C, 0xEE, 0x66, 0x5C, 0xDE, 0xE4, 0xCE, 0x5E, 0x64, 0x60, 0x60, 0x62,
    0x5E, 0x60, 0x68, 0x5E, 0xF0, 0xDA, 0xD8, 0xCA, 0xDC, 0xC6, 0x46, 0xE6, 0xD0, 0xC2, 0x64,
    0x6A, 0x6C, 0x80]

/-- The same with a reference to it. -/
def referencedMiddle : List UInt8 :=
  [
    0x00, 0x24, 0x29, 0x68, 0x74, 0x74, 0x70, 0x3A, 0x2F, 0x2F, 0x77, 0x77, 0x77, 0x2E, 0x77,
    0x33, 0x2E, 0x6F, 0x72, 0x67, 0x2F, 0x32, 0x30, 0x30, 0x31, 0x2F, 0x30, 0x34, 0x2F, 0x78,
    0x6D, 0x6C, 0x65, 0x6E, 0x63, 0x23, 0x73, 0x68, 0x61, 0x32, 0x35, 0x36, 0x40]

/-- The `SignedInfo` bytes, given what the two codings write for the digest and behind it. -/
def signedInfoBytes (literalDigest referencedDigest : List UInt8) : ValueCoding → List UInt8
  | .literal => signedInfoHead ++ literalMiddle ++ literalDigest
  | .referenced => signedInfoHead ++ referencedMiddle ++ referencedDigest

/-- A codec, as far as it is asked: it writes one value. -/
def only {α : Type} [DecidableEq α] (sample : α) (bytes : ValueCoding → List UInt8) : Encode α :=
  fun value coding => if value = sample then .ok (bytes coding) else .error .unsupportedOption

/-- The `SignedInfo` over one element `#ID1` with this digest. -/
def signedInfo (digest : List UInt8) : SignedInfo where
  id := none
  canonicalizationMethod := ⟨canonicalExi⟩
  signatureMethod := ⟨Suite.ecdsaSha256.signatureAlgorithm, none⟩
  reference := [⟨none, none, some "#ID1", some ⟨[⟨canonicalExi⟩]⟩,
    ⟨Suite.ecdsaSha256.digestAlgorithm⟩, digest⟩]

def digest : List UInt8 := [0xAA, 0xBB, 0xCC, 0xDD, 0xEE, 0xFF]

def xmldsig : Encode SignedInfo :=
  only (signedInfo digest)
    (signedInfoBytes [0xD5, 0x57, 0x79, 0x9B, 0xBD, 0xDF, 0xE3, 0x70]
      [0x6A, 0xAB, 0xBC, 0xCD, 0xDE, 0xEF, 0xF1, 0xB8])

def signatureValue : List UInt8 := List.replicate 64 0x07

def otherDigest : List UInt8 := [0x11, 0x22, 0x33, 0x44, 0x55, 0x66]

/-- A digest for each of two fragments. -/
def pairHash : Hash := fun _ fragment => if fragment = [0x80] then digest else otherDigest

/-- The `SignedInfo` over `#ID1` and `#ID2`, in this order. -/
def pairInfo : SignedInfo :=
  { signedInfo digest with
    reference := (signedInfo digest).reference ++ [⟨none, none, some "#ID2",
      some ⟨[⟨canonicalExi⟩]⟩, ⟨Suite.ecdsaSha256.digestAlgorithm⟩, otherDigest⟩] }

/-- Its bytes: the first digest, and the second reference with every string written out, or with
references to those of the first. -/
def pairBytes : ValueCoding → List UInt8 :=
  signedInfoBytes
    [0xD5, 0x57, 0x79, 0x9B, 0xBD, 0xDF,
      0xE0, 0x81, 0x88, 0xD2, 0x51, 0x0C, 0x80, 0x95, 0xA1, 0xD1, 0xD1, 0xC0, 0xE8, 0xBC, 0xBD,
      0xDD, 0xDD, 0xDC, 0xB9, 0xDC, 0xCC, 0xB9, 0xBD, 0xC9, 0x9C, 0xBD, 0x51, 0x48, 0xBD, 0x8D,
      0x85, 0xB9, 0xBD, 0xB9, 0xA5, 0x8D, 0x85, 0xB0, 0xB5, 0x95, 0xE1, 0xA4, 0xBD, 0x21, 0x4B,
      0x43, 0xA3, 0xA3, 0x81, 0xD1, 0x79, 0x7B, 0xBB, 0xBB, 0xB9, 0x73, 0xB9, 0x99, 0x73, 0x7B,
      0x93, 0x39, 0x79, 0x91, 0x81, 0x81, 0x89, 0x79, 0x81, 0xA1, 0x7B, 0xC3, 0x6B, 0x63, 0x2B,
      0x73, 0x19, 0x1B, 0x9B, 0x43, 0x09, 0x91, 0xA9, 0xB2, 0x03, 0x08, 0x91, 0x19, 0xA2, 0x2A,
      0xB3, 0x0D, 0xC0]
    [0x6A, 0xAB, 0xBC, 0xCD, 0xDE, 0xEF,
      0xF0, 0x40, 0xC4, 0x69, 0x28, 0x86, 0x40, 0x00, 0x24, 0x00, 0x90, 0x18, 0x44, 0x88, 0xCD,
      0x11, 0x55, 0x98, 0x6E]

def xmldsigPair : Encode SignedInfo := only pairInfo pairBytes

/-- A verifier that accepts one value over one string of bytes. -/
def verifier (data : List UInt8) : Verify := fun suite data' value =>
  if suite = .ecdsaSha256 ∧ data' = data ∧ value = signatureValue then .ok ()
  else .error .badSignature

end Sample

end Iso15118.Pnc
