import Iso15118.Pnc.Authorization

/-!
# An authorization cannot be replayed

Whatever request and signature an attacker puts together from past sessions, they pass for a
challenge only if that challenge was signed, in a request with the same id.

The argument needs three things of what is not modelled here: the hash has no collisions
(`Function.Injective`), the codec writes different bytes for different values, in whichever coding
(**`Lossless`**), and the verifier accepts nothing that was not signed.

* **`signed_of_covered`** — what a verified signature covers is what was signed;
* **`Iso2.SignCall`**, **`Iso20.SignCall`** — one call of `sign_authorization` in a history;
* **`authorization_not_replayed`** — both generations.
-/

namespace Iso15118.Pnc

open Iso15118.Lib Iso15118.Exi

/-- Equal bytes are of equal values, whichever coding wrote them. -/
def Lossless {α : Type} (encode : Encode α) : Prop :=
  ∀ a b coding coding' bytes, encode a coding = .ok bytes → encode b coding' = .ok bytes → a = b

/-! ## What is covered was signed

A reference names its element by id and digest. With a hash that has no collisions, the fragment
is the one that was signed. -/

section Signed

variable {toXmldsigFragmentWith : Encode SignedInfo} {hash : Hash} {verifier : Verify}
  {signer : Sign} {suite : Suite} {signature : Signature} {element element' : Signed}

theorem reference_of_sign
    (h : sign toXmldsigFragmentWith hash signer suite [element] = .ok signature) :
    signature.signedInfo.reference = [buildReference hash suite element] := by
  obtain ⟨info, hbuild, h⟩ := bind_eq_ok.mp h
  obtain ⟨canonical, -, h⟩ := bind_eq_ok.mp h
  obtain ⟨value, -, h⟩ := bind_eq_ok.mp h
  obtain ⟨-, hinfo⟩ := refuse_eq_ok.mp hbuild
  cases h
  cases hinfo
  rfl

/-- The reference built for one element covers no other: the URI carries the id, and the digest
the fragment. -/
theorem Covers.eq_of_build (hhash : ∀ suite, Function.Injective (hash suite))
    (h : Covers hash suite (buildReference hash suite element') element) : element' = element := by
  have hid : "#" ++ element'.id = "#" ++ element.id := Option.some.inj h.uri
  have hfragment : element'.fragment = element.fragment := hhash suite h.digest
  cases element
  cases element'
  simp only [Signed.mk.injEq]
  exact ⟨(String.append_right_inj "#").mp hid, hfragment⟩

/-- **What is covered was signed.** If the verifier accepts only what was signed for an element
with property `P`, a signature that covers a single element covers one with property `P`. -/
theorem signed_of_covered {P : Signed → Prop} {accepted : List Suite}
    (hhash : ∀ suite, Function.Injective (hash suite)) (hxmldsig : Lossless toXmldsigFragmentWith)
    (hsigned : ∀ suite data value, verifier suite data value = .ok () →
      ∃ element' signer signature', P element'
        ∧ sign toXmldsigFragmentWith hash signer suite [element'] = .ok signature'
        ∧ toXmldsigFragmentWith signature'.signedInfo .literal = .ok data)
    (h : Covered toXmldsigFragmentWith hash verifier accepted signature [element]) :
    P element := by
  obtain ⟨suite, -, -, ⟨coding, canonical, hcanonical, hverified⟩, -, ⟨σ, hσ⟩, -⟩ := h
  obtain ⟨element', signer, signature', hP, hsign, hdata⟩ := hsigned _ _ _ hverified
  -- the bytes verified are the bytes signed, so this is the `SignedInfo` that was built then
  have hinfo : signature.signedInfo = signature'.signedInfo :=
    hxmldsig _ _ _ _ _ hcanonical hdata
  have hreference := reference_of_sign hsign
  rw [← hinfo] at hreference
  have hone : 0 < signature.signedInfo.reference.length := by
    rw [hreference]
    exact Nat.one_pos
  have hcovers := hσ ⟨0, hone⟩
  have hbuilt : signature.signedInfo.reference.get ⟨0, hone⟩
      = buildReference hash suite element' := by
    apply List.mem_singleton.mp
    rw [← hreference]
    exact List.get_mem ..
  have helement : [element].get (σ ⟨0, hone⟩) = element :=
    List.mem_singleton.mp (List.get_mem [element] _)
  rw [hbuilt, helement] at hcovers
  rwa [← hcovers.eq_of_build hhash]

end Signed

/-! ## Histories of signing

What a key was used for is a list of calls; what the verifier accepts was returned by one of
them. -/

namespace Iso2

/-- One call of `sign_authorization`: its request and challenge, and how the signer answered. -/
structure SignCall where
  request : AuthorizationReq
  challenge : GenChallenge
  signer : Sign

/-- The call returned a signature of this value over these bytes. -/
def SignCall.Produced (call : SignCall) (toFragmentWith : Encode AuthorizationReq)
    (toXmldsigFragmentWith : Encode SignedInfo) (hash : Hash) (suite : Suite)
    (data value : List UInt8) : Prop :=
  ∃ signature, (signAuthorization toFragmentWith toXmldsigFragmentWith hash call.signer call.request
      call.challenge).2 = .ok signature
    ∧ suite = .ecdsaSha256 ∧ toXmldsigFragmentWith signature.signedInfo .literal = .ok data
    ∧ signature.signatureValue.value = value

/-- The request as the call signed it. -/
def SignCall.signed (call : SignCall) : AuthorizationReq := fillRequest call.request call.challenge

end Iso2

namespace Iso20

/-- One call of `sign_authorization`, under a suite. -/
structure SignCall where
  suite : Suite
  mode : PnCAReqAuthorizationMode
  challenge : GenChallenge
  signer : Sign

/-- The call returned a signature of this value over these bytes. -/
def SignCall.Produced (call : SignCall) (toFragmentWith : Encode PnCAReqAuthorizationMode)
    (toXmldsigFragmentWith : Encode SignedInfo) (hash : Hash) (suite : Suite)
    (data value : List UInt8) : Prop :=
  ∃ signature, (signAuthorization toFragmentWith toXmldsigFragmentWith hash call.signer call.suite
      call.mode call.challenge).2 = .ok signature
    ∧ suite = call.suite ∧ toXmldsigFragmentWith signature.signedInfo .literal = .ok data
    ∧ signature.signatureValue.value = value

/-- The mode as the call signed it. -/
def SignCall.signed (call : SignCall) : PnCAReqAuthorizationMode :=
  fillMode call.mode call.challenge

end Iso20

section Replay

variable {toXmldsigFragmentWith : Encode SignedInfo} {hash : Hash} {verifier : Verify}
  {signature : Signature} {challenge : GenChallenge}

theorem Iso2.signed_of_verifyAuthorization {toFragmentWith : Encode AuthorizationReq}
    {history : List Iso2.SignCall} {request : AuthorizationReq}
    (hhash : ∀ suite, Function.Injective (hash suite)) (hxmldsig : Lossless toXmldsigFragmentWith)
    (hfragment : Lossless toFragmentWith)
    (hverifier : ∀ suite data value, verifier suite data value = .ok () →
      ∃ call ∈ history, call.Produced toFragmentWith toXmldsigFragmentWith hash suite data value)
    (h : verifyAuthorization toFragmentWith toXmldsigFragmentWith hash verifier request signature
      challenge = .ok ()) :
    ∃ call ∈ history, request = call.signed := by
  obtain ⟨-, id, coding, fragment, -, hencoded, hcovered⟩ := verifyAuthorization_ok h
  have hsigned := signed_of_covered (P := fun element => ∃ call ∈ history,
    toFragmentWith call.signed .literal = .ok element.fragment) hhash hxmldsig ?_ hcovered
  · obtain ⟨call, hmem, hsame⟩ := hsigned
    exact ⟨call, hmem, hfragment _ _ _ _ _ hencoded hsame⟩
  · intro suite data value hverified
    obtain ⟨call, hmem, signature', hsign, rfl, hdata, -⟩ := hverifier _ _ _ hverified
    obtain ⟨fragment', hfragment', hsign⟩ := bind_eq_ok.mp hsign
    refine ⟨⟨_, fragment'⟩, call.signer, signature', ⟨call, hmem, ?_⟩, hsign, hdata⟩
    exact mapError_eq_ok.mp hfragment'

theorem Iso20.signed_of_verifyAuthorization {toFragmentWith : Encode PnCAReqAuthorizationMode}
    {history : List Iso20.SignCall} {mode : PnCAReqAuthorizationMode} {accepted : List Suite}
    (hhash : ∀ suite, Function.Injective (hash suite)) (hxmldsig : Lossless toXmldsigFragmentWith)
    (hfragment : Lossless toFragmentWith)
    (hverifier : ∀ suite data value, verifier suite data value = .ok () →
      ∃ call ∈ history, call.Produced toFragmentWith toXmldsigFragmentWith hash suite data value)
    (h : verifyAuthorization toFragmentWith toXmldsigFragmentWith hash verifier mode signature
      challenge accepted = .ok ()) :
    ∃ call ∈ history, mode = call.signed := by
  obtain ⟨-, coding, fragment, hencoded, hcovered⟩ := verifyAuthorization_ok h
  have hsigned := signed_of_covered (P := fun element => ∃ call ∈ history,
    toFragmentWith call.signed .literal = .ok element.fragment) hhash hxmldsig ?_ hcovered
  · obtain ⟨call, hmem, hsame⟩ := hsigned
    exact ⟨call, hmem, hfragment _ _ _ _ _ hencoded hsame⟩
  · intro suite data value hverified
    obtain ⟨call, hmem, signature', hsign, rfl, hdata, -⟩ := hverifier _ _ _ hverified
    obtain ⟨fragment', hfragment', hsign⟩ := bind_eq_ok.mp hsign
    refine ⟨⟨_, fragment'⟩, call.signer, signature', ⟨call, hmem, ?_⟩, hsign, hdata⟩
    exact mapError_eq_ok.mp hfragment'

end Replay

/-- **No replay.** If the hash has no collisions, the codecs are lossless and the verifiers accept
only what the histories of `sign_authorization` produced, then in both generations any request and
signature that pass for a challenge are of a call made with that challenge: the request echoes it,
and carries the id signed in that call. -/
theorem authorization_not_replayed (hash : Hash)
    (toFragment2 : Encode AuthorizationReq) (toXmldsig2 : Encode SignedInfo)
    (toFragment20 : Encode PnCAReqAuthorizationMode) (toXmldsig20 : Encode SignedInfo)
    (history2 : List Iso2.SignCall) (history20 : List Iso20.SignCall)
    (verifier2 verifier20 : Verify)
    (hhash : ∀ suite, Function.Injective (hash suite))
    (hfragment2 : Lossless toFragment2) (hxmldsig2 : Lossless toXmldsig2)
    (hfragment20 : Lossless toFragment20) (hxmldsig20 : Lossless toXmldsig20)
    (hverifier2 : ∀ suite data value, verifier2 suite data value = .ok () →
      ∃ call ∈ history2, call.Produced toFragment2 toXmldsig2 hash suite data value)
    (hverifier20 : ∀ suite data value, verifier20 suite data value = .ok () →
      ∃ call ∈ history20, call.Produced toFragment20 toXmldsig20 hash suite data value) :
    (∀ request signature c,
      Iso2.verifyAuthorization toFragment2 toXmldsig2 hash verifier2 request signature c = .ok () →
        ∃ call ∈ history2, call.challenge = c ∧ request.genChallenge = some c.bytes.toList
          ∧ request.id = call.signed.id)
      ∧ ∀ mode signature c accepted,
        Iso20.verifyAuthorization toFragment20 toXmldsig20 hash verifier20 mode signature c accepted
            = .ok () →
          ∃ call ∈ history20, call.challenge = c ∧ mode.genChallenge = c.bytes.toList
            ∧ mode.id = call.signed.id := by
  constructor
  · intro request signature c h
    obtain ⟨call, hmem, hrequest⟩ :=
      Iso2.signed_of_verifyAuthorization hhash hxmldsig2 hfragment2 hverifier2 h
    -- the challenge echoed is the one that was signed
    obtain ⟨hecho, -⟩ := Iso2.verifyAuthorization_ok h
    refine ⟨call, hmem, ?_, hecho, congrArg AuthorizationReq.id hrequest⟩
    rw [hrequest] at hecho
    exact congrArg GenChallenge.mk (Bytes.ext (Option.some.inj hecho))
  · intro mode signature c accepted h
    obtain ⟨call, hmem, hmode⟩ :=
      Iso20.signed_of_verifyAuthorization hhash hxmldsig20 hfragment20 hverifier20 h
    obtain ⟨hecho, -⟩ := Iso20.verifyAuthorization_ok h
    refine ⟨call, hmem, ?_, hecho, congrArg PnCAReqAuthorizationMode.id hmode⟩
    rw [hmode] at hecho
    exact congrArg GenChallenge.mk (Bytes.ext hecho)

/-! ## One session of each generation

One call of each, with a hash that is injective and a verifier that takes what was produced. -/

namespace Sample

def challenge : GenChallenge := ⟨Bytes.replicate 16 0x5A⟩

/-- The call leaves the id to the default. -/
def call2 : Iso2.SignCall := ⟨⟨none, none⟩, challenge, fun _ _ => .ok signatureValue⟩

def fragment2 : List UInt8 :=
  [0x80, 0x04, 0x01, 0x52, 0x51, 0x0C, 0x40, 0x82, 0xD2, 0xD2, 0xD2, 0xD2, 0xD2, 0xD2, 0xD2, 0xD2,
    0xD2, 0xD2, 0xD2, 0xD2, 0xD2, 0xD2, 0xD2, 0xD1, 0xE8]

def call20 : Iso20.SignCall :=
  ⟨.ecdsaSha256, ⟨"", [], ⟨[0x30], [[0x31]]⟩⟩, challenge, fun _ _ => .ok signatureValue⟩

def fragment20 : List UInt8 :=
  [0x80, 0x4B, 0x81, 0x52, 0x51, 0x0C, 0x41, 0x05, 0xA5, 0xA5, 0xA5, 0xA5, 0xA5, 0xA5, 0xA5, 0xA5,
    0xA5, 0xA5, 0xA5, 0xA5, 0xA5, 0xA5, 0xA5, 0xA0, 0x01, 0x30, 0x00, 0x13, 0x12, 0x46, 0x80]

def xmldsig20 : Encode SignedInfo :=
  only (signedInfo otherDigest)
    (signedInfoBytes [0xC2, 0x24, 0x46, 0x68, 0x8A, 0xAC, 0xC3, 0x70]
      [0x61, 0x12, 0x23, 0x34, 0x45, 0x56, 0x61, 0xB8])

/-- A hash without collisions: six bytes for the two fragments, more for everything else. -/
def hash : Hash := fun _ data =>
  if data = fragment2 then digest
  else if data = fragment20 then otherDigest
  else List.replicate 7 0x00 ++ data

/-- The sample hash tells all data apart, as the claim on it has to. -/
theorem hash_injective (suite : Suite) : Function.Injective (hash suite) := by
  have hlong (data : List UInt8) : (List.replicate 7 0x00 ++ data).length ≠ 6 := by
    rw [List.length_append, List.length_replicate]
    omega
  intro a b h
  unfold hash at h
  split at h
  · next ha =>
    split at h
    · next hb => rw [ha, hb]
    · split at h
      · exact absurd h (by decide)
      · exact absurd (congrArg List.length h.symm) (hlong b)
  · split at h
    · next ha =>
      split at h
      · exact absurd h (by decide)
      · split at h
        · next hb => rw [ha, hb]
        · exact absurd (congrArg List.length h.symm) (hlong b)
    · split at h
      · exact absurd (congrArg List.length h) (hlong a)
      · split at h
        · exact absurd (congrArg List.length h) (hlong a)
        · exact List.append_cancel_left h

theorem lossless_only {α : Type} [DecidableEq α] (sample : α) (bytes : ValueCoding → List UInt8) :
    Lossless (only sample bytes) := by
  intro a b coding coding' out ha hb
  obtain ⟨rfl, -⟩ := require_eq_ok.mp ha
  obtain ⟨rfl, -⟩ := require_eq_ok.mp hb
  rfl

/-- The verifier accepts what it is told was signed, and nothing else. -/
theorem of_verifier_ok {data data' value : List UInt8} {suite : Suite}
    (h : verifier data suite data' value = .ok ()) :
    suite = .ecdsaSha256 ∧ data' = data ∧ value = signatureValue :=
  (require_eq_ok.mp h).1

end Sample

/-- A request of each generation passes for the challenge it was signed for, and is the one signed
call's. -/
theorem authorization_not_replayed_session :
    (∃ call ∈ [Sample.call2], call.challenge = Sample.challenge
        ∧ Sample.call2.signed.genChallenge = some Sample.challenge.bytes.toList
        ∧ Sample.call2.signed.id = call.signed.id)
      ∧ ∃ call ∈ [Sample.call20], call.challenge = Sample.challenge
        ∧ Sample.call20.signed.genChallenge = Sample.challenge.bytes.toList
        ∧ Sample.call20.signed.id = call.signed.id := by
  have hboth := authorization_not_replayed Sample.hash
    (Sample.only Sample.call2.signed fun _ => Sample.fragment2) Sample.xmldsig
    (Sample.only Sample.call20.signed fun _ => Sample.fragment20) Sample.xmldsig20
    [Sample.call2] [Sample.call20]
    (Sample.verifier (Sample.signedInfoBytes [0xD5, 0x57, 0x79, 0x9B, 0xBD, 0xDF, 0xE3, 0x70] []
      .literal))
    (Sample.verifier (Sample.signedInfoBytes [0xC2, 0x24, 0x46, 0x68, 0x8A, 0xAC, 0xC3, 0x70] []
      .literal))
    Sample.hash_injective (Sample.lossless_only _ _) (Sample.lossless_only _ _)
    (Sample.lossless_only _ _) (Sample.lossless_only _ _) ?_ ?_
  · constructor
    · exact hboth.1 _ ⟨none, Sample.signedInfo Sample.digest, ⟨none, Sample.signatureValue⟩⟩ _
        (by decide +kernel)
    · exact hboth.2 _ ⟨none, Sample.signedInfo Sample.otherDigest, ⟨none, Sample.signatureValue⟩⟩ _
        [.ecdsaSha256] (by decide +kernel)
  · intro suite data value h
    obtain ⟨rfl, rfl, rfl⟩ := Sample.of_verifier_ok h
    exact ⟨Sample.call2, List.mem_singleton_self _,
      ⟨none, Sample.signedInfo Sample.digest, ⟨none, Sample.signatureValue⟩⟩, by decide +kernel,
      rfl, by decide +kernel, rfl⟩
  · intro suite data value h
    obtain ⟨rfl, rfl, rfl⟩ := Sample.of_verifier_ok h
    exact ⟨Sample.call20, List.mem_singleton_self _,
      ⟨none, Sample.signedInfo Sample.otherDigest, ⟨none, Sample.signatureValue⟩⟩,
      by decide +kernel, rfl, by decide +kernel, rfl⟩

end Iso15118.Pnc
