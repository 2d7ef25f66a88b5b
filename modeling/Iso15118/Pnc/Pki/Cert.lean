import Iso15118.Pnc.Basic
import Iso15118.Pnc.Pki.Der

/-!
# Reading a certificate

`pnc/pki/cert.rs`: an X.509 certificate, read down to the fields the profiles constrain.

* **`Certificate`** — what is kept of one, with **`Certificate.parse`** and one reader per field:
  **`readName`**, **`readValidity`**, **`readSpki`**, **`Extensions.read`**, **`rawSignature`**;
* **`eachNested`** — the loop all lists in a certificate are read with.
-/

namespace Iso15118.Pnc.Pki

open Iso15118.Lib

/-! ## Object identifiers

The contents of the identifiers the parser compares with, as they stand in the source. -/

namespace Oid

def ecPublicKey : List UInt8 := [0x2A, 0x86, 0x48, 0xCE, 0x3D, 0x02, 0x01]
def prime256v1 : List UInt8 := [0x2A, 0x86, 0x48, 0xCE, 0x3D, 0x03, 0x01, 0x07]
def secp521r1 : List UInt8 := [0x2B, 0x81, 0x04, 0x00, 0x23]
def ecdsaWithSha256 : List UInt8 := [0x2A, 0x86, 0x48, 0xCE, 0x3D, 0x04, 0x03, 0x02]
def ecdsaWithSha512 : List UInt8 := [0x2A, 0x86, 0x48, 0xCE, 0x3D, 0x04, 0x03, 0x04]
def commonName : List UInt8 := [0x55, 0x04, 0x03]
def organization : List UInt8 := [0x55, 0x04, 0x0A]
def domainComponent : List UInt8 := [0x09, 0x92, 0x26, 0x89, 0x93, 0xF2, 0x2C, 0x64, 0x01, 0x19]
def subjectKeyIdentifier : List UInt8 := [0x55, 0x1D, 0x0E]
def keyUsage : List UInt8 := [0x55, 0x1D, 0x0F]
def basicConstraints : List UInt8 := [0x55, 0x1D, 0x13]
def certificatePolicies : List UInt8 := [0x55, 0x1D, 0x20]
def crlDistributionPoints : List UInt8 := [0x55, 0x1D, 0x1F]
def authorityKeyIdentifier : List UInt8 := [0x55, 0x1D, 0x23]
def extKeyUsage : List UInt8 := [0x55, 0x1D, 0x25]
def authorityInfoAccess : List UInt8 := [0x2B, 0x06, 0x01, 0x05, 0x05, 0x07, 0x01, 0x01]

end Oid

/-! ## What is kept of a certificate

The fields of the source. What the parser reads and drops has no place here. -/

inductive Curve where
  | p256
  | p521
  deriving DecidableEq, Repr

namespace Curve

/-- Length of one coordinate, and so half of a raw `r ‖ s` signature. -/
def fieldLen : Curve → Nat
  | p256 => 32
  | p521 => 66

def suite : Curve → Suite
  | p256 => .ecdsaSha256
  | p521 => .ecdsaSha512

end Curve

structure KeyUsage where
  bits : UInt16
  deriving DecidableEq

namespace KeyUsage

def digitalSignature : KeyUsage := ⟨(1 : UInt16) <<< 0⟩
def nonRepudiation : KeyUsage := ⟨(1 : UInt16) <<< 1⟩
def keyCertSign : KeyUsage := ⟨(1 : UInt16) <<< 5⟩

/-- Both sets of bits. -/
def and (a b : KeyUsage) : KeyUsage := ⟨a.bits ||| b.bits⟩

/-- Every bit of `wanted` is set here. -/
def contains (a wanted : KeyUsage) : Bool := a.bits &&& wanted.bits = wanted.bits

end KeyUsage

structure BasicConstraints where
  ca : Bool
  pathLen : Option Nat
  deriving DecidableEq

/-- A distinguished name: its encoding, tag and length included, and the attributes the profiles
name. -/
structure Name where
  encoded : List UInt8
  commonName : Option String
  organization : Option String
  domainComponent : Option String
  deriving DecidableEq

structure Certificate where
  der : List UInt8
  /-- `tbsCertificate`, tag and length included: the bytes the issuer signed. -/
  tbs : List UInt8
  serial : List UInt8
  issuer : Name
  subject : Name
  /-- Seconds since the Unix epoch, as `notAfter`. -/
  notBefore : Int
  notAfter : Int
  curve : Curve
  publicKey : List UInt8
  keyUsage : Option KeyUsage
  basicConstraints : Option BasicConstraints
  /-- The raw `r ‖ s` pair. -/
  signature : List UInt8
  deriving DecidableEq

inductive CertError where
  | der (e : DerError)
  | notV3
  | unsupportedCurve
  | badPublicKey
  | unsupportedSignatureAlgorithm
  | algorithmMismatch
  | badSignature
  | badValidity
  | unknownCriticalExtension
  | duplicateExtension
  deriving DecidableEq, Repr

/-- A reader's error is the certificate's. -/
instance : MonadLift (Except DerError) (Except CertError) where
  monadLift r := r.mapError .der

/-! ## Lists of values

Every list in a certificate is read the same way, with a body for one entry and something
gathered along it. -/

/-- Reads values under `tag` to the end, each into its own reader, and folds `body` over them. -/
def eachNested {σ : Type} (tag : UInt8) (body : σ → Der → Except CertError σ) (s : σ) (d : Der) :
    Except CertError σ :=
  if d.isEmpty then .ok s
  else
    match _hd : d.nested tag with
    | .error e => .error (.der e)
    | .ok (item, d') =>
        match body s item with
        | .error e => .error e
        | .ok s' => eachNested tag body s' d'
termination_by d.rest.length
decreasing_by exact Der.nested_shorter _hd

/-! ## The fields

One reader for each field, in the order of the certificate. Each takes its value off the front
and hands back the reader behind it. -/

/-- Reads an `AlgorithmIdentifier`, which has no parameters in this profile. -/
def readSignatureAlgorithm (d : Der) : Except CertError (List UInt8 × Der) := do
  let (alg, d) ← d.nested Tag.sequence
  let (id, alg) ← alg.expect Tag.oid
  if ¬ alg.isEmpty then .error .unsupportedSignatureAlgorithm
  else if id = Oid.ecdsaWithSha256 ∨ id = Oid.ecdsaWithSha512 then .ok (id, d)
  else .error .unsupportedSignatureAlgorithm

def fromUtf8 (bytes : List UInt8) : Option String := String.fromUTF8? ⟨bytes.toArray⟩

/-- Keeps one attribute of a name. A value that is not UTF-8 is left unread. -/
def Name.readAttribute (name : Name) (attr : Der) : Except CertError Name := do
  let (id, attr) ← attr.expect Tag.oid
  let (_, value, attr) ← attr.any
  attr.finish
  match fromUtf8 value with
  | none => return name
  | some text =>
      if id = Oid.commonName then return { name with commonName := some text }
      else if id = Oid.organization then return { name with organization := some text }
      else if id = Oid.domainComponent ∧ name.domainComponent.isNone then
        return { name with domainComponent := some text }
      else return name

def readName (d : Der) : Except CertError (Name × Der) := do
  let (_, encoded, contents, d) ← d.anyRaw
  let name ← eachNested Tag.set (eachNested Tag.sequence Name.readAttribute)
    ⟨encoded, none, none, none⟩ ⟨contents⟩
  return (name, d)

/-- Splits `n` decimal digits off the front. The text is UTF-8, so a cut inside a character
leaves a byte in the head that is no digit. -/
def splitDigits (text : List UInt8) (n : Nat) : Except CertError (Nat × List UInt8) :=
  if text.length < n then .error .badValidity
  else if (text.take n).all (fun b => 0x30 ≤ b ∧ b ≤ 0x39) then
    .ok ((text.take n).foldl (fun acc b => acc * 10 + (b - 0x30).toNat) 0, text.drop n)
  else .error .badValidity

/-- Civil date to Unix seconds. -/
def unixSeconds (year : Int) (month day hour minute second : Nat) : Int :=
  let m : Int := month
  let d : Int := day
  let y := if m ≤ 2 then year - 1 else year
  let era := (if y ≥ 0 then y else y - 399).tdiv 400
  let yoe := y - era * 400
  let mp := (m + 9) % 12
  let doy := (153 * mp + 2) / 5 + d - 1
  let doe := yoe * 365 + yoe / 4 - yoe / 100 + doy
  let days := era * 146097 + doe - 719468
  days * 86400 + hour * 3600 + minute * 60 + second

/-- The year of a `Time`, whose encodings differ in how they write it. -/
def readYear (tag : UInt8) (text : List UInt8) : Except CertError (Nat × List UInt8) :=
  if tag = Tag.utcTime then do
    let (yy, rest) ← splitDigits text 2
    return (if yy < 50 then 2000 + yy else 1900 + yy, rest)
  else if tag = Tag.generalizedTime then splitDigits text 4
  else .error .badValidity

def readTime (d : Der) : Except CertError (Int × Der) := do
  let (tag, bytes, d) ← d.any
  if (fromUtf8 bytes).isNone then .error .badValidity
  else do
    let (year, rest) ← readYear tag bytes
    let (month, rest) ← splitDigits rest 2
    let (day, rest) ← splitDigits rest 2
    let (hour, rest) ← splitDigits rest 2
    let (minute, rest) ← splitDigits rest 2
    let (second, rest) ← splitDigits rest 2
    -- no local time, no offset
    if rest ≠ [0x5A] then .error .badValidity
    else if ¬ (1 ≤ month ∧ month ≤ 12) ∨ day = 0 ∨ day > 31 ∨ hour > 23 ∨ minute > 59
        ∨ second > 60 then .error .badValidity
    else .ok (unixSeconds year month day hour minute second, d)

def readValidity (d : Der) : Except CertError (Int × Int × Der) := do
  let (validity, d) ← d.nested Tag.sequence
  let (notBefore, validity) ← readTime validity
  let (notAfter, validity) ← readTime validity
  validity.finish
  return (notBefore, notAfter, d)

def readCurve (id : List UInt8) : Except CertError Curve :=
  if id = Oid.prime256v1 then .ok .p256
  else if id = Oid.secp521r1 then .ok .p521
  else .error .unsupportedCurve

/-- Reads `SubjectPublicKeyInfo`: the curve, and the point in uncompressed form. -/
def readSpki (d : Der) : Except CertError (Curve × List UInt8 × Der) := do
  let (spki, d) ← d.nested Tag.sequence
  let (alg, spki) ← spki.nested Tag.sequence
  let (kind, alg) ← alg.expect Tag.oid
  if kind ≠ Oid.ecPublicKey then .error .unsupportedCurve
  else do
    let (named, alg) ← alg.expect Tag.oid
    let curve ← readCurve named
    alg.finish
    let (unused, point, spki) ← spki.bitString
    spki.finish
    if unused ≠ 0 then .error .badPublicKey
    else if point.head? ≠ some 0x04 ∨ point.length ≠ 1 + 2 * curve.fieldLen then
      .error .badPublicKey
    else .ok (curve, point, d)

/-- The named bits of one byte of a `KeyUsage`, numbered from its high bit; the bits the encoding
declares unused are not read. -/
def usageBits (byte : UInt8) (index len : Nat) (unused : UInt8) : List Nat :=
  ((List.range 8).takeWhile fun bit => ¬ (index = len - 1 ∧ bit ≥ 8 - unused.toNat)).filter
    fun bit => byte &&& (0x80 >>> UInt8.ofNat bit) ≠ 0

def readKeyUsage (value : List UInt8) : Except CertError KeyUsage := do
  let (unused, bytes, d) ← (Der.mk value).bitString
  d.finish
  let positions := (bytes.take 2).zipIdx.flatMap fun (byte, index) =>
    (usageBits byte index bytes.length unused).map (index * 8 + ·)
  return ⟨positions.foldl (fun bits position => bits ||| (1 <<< UInt16.ofNat position)) 0⟩

/-- Reads `BasicConstraints`. DER omits a field at its default, so an absent `cA` is false. -/
def readBasicConstraints (value : List UInt8) : Except CertError BasicConstraints := do
  let (seq, d) ← (Der.mk value).nested Tag.sequence
  d.finish
  let (ca, seq) ← if seq.peek = some Tag.boolean then seq.boolean else .ok (false, seq)
  let (pathLen, seq) ← if seq.peek = some Tag.integer then do
      let (n, seq) ← seq.smallUint
      pure (some n, seq)
    else .ok (none, seq)
  seq.finish
  return ⟨ca, pathLen⟩

/-! ## The extensions

Extensions are taken in one at a time, with a mark for those that must not come again. -/

/-- The extensions tracked for the rule that each stands at most once. -/
inductive Extension where
  | keyUsage
  | basicConstraints
  deriving DecidableEq

structure ExtensionsSeen where
  keyUsage : Bool
  basicConstraints : Bool
  deriving DecidableEq

def ExtensionsSeen.mark (seen : ExtensionsSeen) : Extension → Except CertError ExtensionsSeen
  | .keyUsage =>
      if seen.keyUsage then .error .duplicateExtension else .ok { seen with keyUsage := true }
  | .basicConstraints =>
      if seen.basicConstraints then .error .duplicateExtension
      else .ok { seen with basicConstraints := true }

/-- What the extension list has said so far. -/
structure Extensions where
  seen : ExtensionsSeen
  keyUsage : Option KeyUsage
  basicConstraints : Option BasicConstraints
  deriving DecidableEq

def Extensions.start : Extensions := ⟨⟨false, false⟩, none, none⟩

/-- The extensions that are recognised, and ignored while they are not critical. -/
def ignoredExtensions : List (List UInt8) :=
  [Oid.subjectKeyIdentifier, Oid.authorityKeyIdentifier, Oid.certificatePolicies,
    Oid.crlDistributionPoints, Oid.authorityInfoAccess, Oid.extKeyUsage]

/-- Takes one extension in. -/
def Extensions.take (s : Extensions) (id : List UInt8) (critical : Bool) (value : List UInt8) :
    Except CertError Extensions :=
  if id = Oid.keyUsage then do
    let seen ← s.seen.mark .keyUsage
    let usage ← readKeyUsage value
    return { s with seen := seen, keyUsage := some usage }
  else if id = Oid.basicConstraints then do
    let seen ← s.seen.mark .basicConstraints
    let constraints ← readBasicConstraints value
    return { s with seen := seen, basicConstraints := some constraints }
  else if id ∈ ignoredExtensions ∧ ¬ critical then .ok s
  else if critical then .error .unknownCriticalExtension
  else .ok s

def Extensions.read (s : Extensions) (ext : Der) : Except CertError Extensions := do
  let (id, ext) ← ext.expect Tag.oid
  let (critical, ext) ← if ext.peek = some Tag.boolean then ext.boolean else .ok (false, ext)
  let (value, ext) ← ext.expect Tag.octetString
  ext.finish
  s.take id critical value

/-- Reads the extension list, when there is one. -/
def readExtensions (extensions : Option (List UInt8)) : Except CertError Extensions :=
  match extensions with
  | none => .ok .start
  | some contents => do
      let (list, _) ← (Der.mk contents).nested Tag.sequence
      eachNested Tag.sequence Extensions.read .start list

/-! ## The signature value

The value is kept in the form the backend takes, two coordinates of fixed width. -/

/-- One coordinate of an `ECDSA-Sig-Value`, left-padded to the field's width. -/
def readCoordinate (width : Nat) (seq : Der) : Except CertError (List UInt8 × Der) :=
  match seq.expect Tag.integer with
  | .error _ => .error .badSignature
  | .ok (value, seq) => do
      let value ← match value with
        | [] => .error .badSignature
        | first :: rest =>
            -- a coordinate with its top bit set carries a leading zero
            if first = 0x00 ∧ rest.head?.any (fun b => b &&& 0x80 ≠ 0) then .ok rest
            else if first &&& 0x80 ≠ 0 then .error .badSignature
            else .ok (first :: rest)
      if value.isEmpty ∨ value.length > width then .error .badSignature
      else .ok (List.replicate (width - value.length) 0 ++ value, seq)

/-- Any error of the reader is a bad signature here. -/
def orBadSignature {α : Type} (r : Except DerError α) : Except CertError α :=
  r.mapError fun _ => .badSignature

/-- Converts an `ECDSA-Sig-Value` to the raw `r ‖ s` form. -/
def rawSignature (der : List UInt8) (curve : Curve) : Except CertError (List UInt8) := do
  let (seq, d) ← orBadSignature ((Der.mk der).nested Tag.sequence)
  orBadSignature d.finish
  let (r, seq) ← readCoordinate curve.fieldLen seq
  let (s, seq) ← readCoordinate curve.fieldLen seq
  orBadSignature seq.finish
  return r ++ s

/-! ## The certificate

The fields in a row. What `tbsCertificate` has behind the last of them is not looked at. -/

namespace Certificate

/-- Reads the version, which has to be v3. -/
def readVersion (d : Der) : Except CertError Der := do
  let (version, d) ← d.optional (Tag.context 0)
  match version with
  | none => .error .notV3
  | some contents =>
      let (n, _) ← (Der.mk contents).smallUint
      if n ≠ 2 then .error .notV3 else .ok d

def parse (der : List UInt8) : Except CertError Certificate := do
  let (cert, outer) ← (Der.mk der).nested Tag.sequence
  outer.finish
  let (_, tbs, tbsContents, cert) ← cert.anyRaw
  let d ← readVersion ⟨tbsContents⟩
  let (serial, d) ← d.expect Tag.integer
  let (innerAlg, d) ← readSignatureAlgorithm d
  let (issuer, d) ← readName d
  let (notBefore, notAfter, d) ← readValidity d
  let (subject, d) ← readName d
  let (curve, publicKey, d) ← readSpki d
  let (_, d) ← d.optional 0x81
  let (_, d) ← d.optional 0x82
  let (extensions, _) ← d.optional (Tag.context 3)
  let extensions ← readExtensions extensions
  let (outerAlg, cert) ← readSignatureAlgorithm cert
  if outerAlg ≠ innerAlg then .error .algorithmMismatch
  else do
    let (unused, sigDer, cert) ← cert.bitString
    if unused ≠ 0 then .error .badSignature
    else do
      cert.finish
      let signature ← rawSignature sigDer curve
      return {
        der := der
        tbs := tbs
        serial := serial
        issuer := issuer
        subject := subject
        notBefore := notBefore
        notAfter := notAfter
        curve := curve
        publicKey := publicKey
        keyUsage := extensions.keyUsage
        basicConstraints := extensions.basicConstraints
        signature := signature }

/-- `at` falls inside the validity period. -/
def isValidAt (c : Certificate) (now : Int) : Bool := c.notBefore ≤ now ∧ now ≤ c.notAfter

end Certificate

end Iso15118.Pnc.Pki
