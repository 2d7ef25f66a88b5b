import Iso15118.Pnc.Signature

/-!
# What a verified signature covers

A signature that verifies covers exactly the elements the caller supplied: references and elements
correspond one to one, each reference is about its element's fragment, and one coding carries the
whole of the evidence.

* **`Covers`** — one reference covers one element;
* **`Covered`** — what a verified signature establishes;
* **`verify_covered`** — both generations establish it.
-/

namespace Iso15118.Pnc

open Iso15118.Lib Iso15118.Exi

/-! ## What is established

The claim about one reference and one element, and about a whole signature: the correspondence is
a bijection of places, so an element that is supplied twice needs two references. -/

/-- The reference points at the element by its id, transforms it by canonical EXI alone, and
carries the digest of its fragment under the suite's own algorithm. -/
structure Covers (hash : Hash) (suite : Suite) (reference : Reference) (element : Signed) :
    Prop where
  uri : reference.uri = some ("#" ++ element.id)
  transform : reference.transforms = some ⟨[⟨canonicalExi⟩]⟩
  digestAlgorithm : reference.digestMethod.algorithm = suite.digestAlgorithm
  digest : reference.digestValue = hash suite element.fragment

/-- The signature uses no field the profile forbids. -/
structure Plain (signature : Signature) : Prop where
  signedInfoId : signature.signedInfo.id = none
  signatureValueId : signature.signatureValue.id = none
  referenceType : ∀ r ∈ signature.signedInfo.reference, r.type = none
  hmacOutputLength : signature.signedInfo.signatureMethod.hmacOutputLength = none

/-- The signature value verifies over the `SignedInfo` fragment under one coding, and the
references cover the elements one to one. -/
def Covered (toXmldsigFragmentWith : Encode SignedInfo) (hash : Hash) (verifier : Verify)
    (accepted : List Suite) (signature : Signature) (elements : List Signed) : Prop :=
  ∃ suite ∈ accepted,
    suite.signatureAlgorithm = signature.signedInfo.signatureMethod.algorithm
      ∧ (∃ coding canonical, toXmldsigFragmentWith signature.signedInfo coding = .ok canonical
        ∧ verifier suite canonical signature.signatureValue.value = .ok ())
      ∧ signature.signedInfo.reference.length ≤ 4
      ∧ (∃ σ : Fin signature.signedInfo.reference.length ≃ Fin elements.length,
        ∀ i, Covers hash suite (signature.signedInfo.reference.get i) (elements.get (σ i)))
      ∧ signature.signedInfo.canonicalizationMethod.algorithm = canonicalExi
      ∧ Plain signature

/-! ## The checks

Each check of the source, taken by its success alone. The pairing is an instance of `Lib.Greedy`. -/

theorem diff_eq_zero_iff (xys : List (UInt8 × UInt8)) (diff : UInt8) :
    xys.foldl (fun diff xy => diff ||| (xy.1 ^^^ xy.2)) diff = 0
      ↔ diff = 0 ∧ ∀ xy ∈ xys, xy.1 = xy.2 := by
  induction xys generalizing diff with
  | nil => simp
  | cons xy xys ih =>
    rw [List.foldl_cons, ih, UInt8.or_eq_zero_iff, UInt8.xor_eq_zero_iff, List.forall_mem_cons,
      and_assoc]

/-- The comparison without an early return is equality. -/
theorem digestsEqual_iff (a b : List UInt8) : digestsEqual a b = true ↔ a = b := by
  unfold digestsEqual
  by_cases hlen : a.length = b.length
  · rw [if_neg (not_not.mpr hlen), decide_eq_true_iff, diff_eq_zero_iff]
    constructor
    · rintro ⟨-, hall⟩
      refine List.ext_getElem hlen fun i hi hi' => ?_
      exact hall (a[i], b[i]) (List.mem_of_getElem? (i := i) (by simp [hi, hi']))
    · rintro rfl
      refine ⟨rfl, fun xy hxy => ?_⟩
      obtain ⟨i, hi⟩ := List.mem_iff_getElem?.mp hxy
      obtain ⟨hx, hy⟩ := List.getElem?_zip_eq_some.mp hi
      rw [hx] at hy
      exact Option.some.inj hy
  · rw [if_pos hlen]
    exact ⟨fun h => (by cases h), fun h => absurd (congrArg List.length h) hlen⟩

theorem uri_of_stripHash {uri id : String} (h : stripHash uri = some id) : uri = "#" ++ id := by
  unfold stripHash at h
  split at h
  · next rest huri =>
    cases h
    rw [← String.toList_inj, String.toList_append, huri]
    simp
  · cases h

theorem exists_coding {α : Type} {attempt : ValueCoding → Except PncError α} {a : α}
    (h : eitherCoding attempt = .ok a) : ∃ coding, attempt coding = .ok a := by
  unfold eitherCoding at h
  split at h
  · exact ⟨.referenced, mapError_eq_ok.mp h⟩
  · exact ⟨.referenced, mapError_eq_ok.mp h⟩
  · exact ⟨.literal, h⟩

theorem claimElement_ok {R : Type} {uriOf : R → Option String} {elements : List Signed}
    {used : List Bool} {reference : R} {place : Nat} {element : Signed}
    (h : claimElement uriOf elements used reference = .ok (place, element)) :
    elements[place]? = some element ∧ used[place]? = some false
      ∧ uriOf reference = some ("#" ++ element.id) := by
  unfold claimElement at h
  split at h
  · cases h
  · next id hid =>
    split at h
    · cases h
    · next hfind =>
      cases h
      have hmem := List.mem_of_find?_eq_some hfind
      have htest := List.find?_some hfind
      obtain ⟨hname, hfree⟩ := of_decide_eq_true htest
      obtain ⟨uri, huri, hstrip⟩ := Option.bind_eq_some_iff.mp hid
      refine ⟨List.mem_zipIdx_iff_getElem?.mp hmem, hfree, ?_⟩
      rw [huri, uri_of_stripHash hstrip, ← hname]

/-- References and elements correspond one to one. -/
theorem exists_equiv_of_pair {R : Type} {references : List R} {uriOf : R → Option String}
    {elements : List Signed} {paired : List (R × Signed)}
    (h : pair references uriOf elements = .ok paired) :
    references.length ≤ 4
      ∧ (∀ e ∈ paired, uriOf e.1 = some ("#" ++ e.2.id))
      ∧ ∃ σ : Fin references.length ≃ Fin elements.length,
        ∀ i, (references.get i, elements.get (σ i)) ∈ paired := by
  unfold pair at h
  obtain ⟨hfew, h⟩ := refuse_eq_ok.mp h
  obtain ⟨hlen, h⟩ := refuse_eq_ok.mp h
  refine ⟨Nat.le_of_not_lt hfew, ?_, ?_⟩
  · exact forall_mem_of_claimEach (fun r e => uriOf r = some ("#" ++ e.id))
      (fun _ _ _ _ hclaim => (claimElement_ok hclaim).2.2) h
  · refine exists_equiv_of_claimEach (fun _ _ _ _ hclaim => ?_) (not_not.mp hlen) h
    obtain ⟨hat, hfree, -⟩ := claimElement_ok hclaim
    exact ⟨hat, hfree⟩

theorem transforms_of_check {transforms : Option Transforms}
    (h : checkTransforms (transformAlgorithms transforms) = .ok ()) :
    transforms = some ⟨[⟨canonicalExi⟩]⟩ := by
  unfold checkTransforms at h
  split at h
  · next only hone =>
    obtain ⟨⟨list⟩, rfl, hlist⟩ := Option.map_eq_some_iff.mp hone
    obtain ⟨rfl, -⟩ := require_eq_ok.mp h
    obtain ⟨⟨algorithm⟩, hsingle, halg⟩ := List.map_eq_singleton_iff.mp hlist
    cases hsingle
    cases halg
    rfl
  · cases h

theorem checkReference_ok {hash : Hash} {suite : Suite} {algorithm : String}
    {digestValue : List UInt8} {element : Signed}
    (h : checkReference hash suite algorithm digestValue element = .ok ()) :
    algorithm = suite.digestAlgorithm ∧ digestValue = hash suite element.fragment := by
  unfold checkReference at h
  obtain ⟨halg, h⟩ := refuse_eq_ok.mp h
  obtain ⟨hdigest, -⟩ := require_eq_ok.mp h
  exact ⟨not_not.mp halg, ((digestsEqual_iff ..).mp hdigest).symm⟩

theorem checkSuite_ok {algorithm : String} {hmac : Option Int} {accepted : List Suite}
    {suite : Suite} (h : checkSuite algorithm hmac accepted = .ok suite) :
    suite ∈ accepted ∧ suite.signatureAlgorithm = algorithm ∧ hmac = none := by
  unfold checkSuite at h
  split at h
  · cases h
  · next hsuite =>
    obtain ⟨hhmac, h⟩ := refuse_eq_ok.mp h
    cases h
    obtain ⟨hfrom, haccepted⟩ := Option.filter_eq_some_iff.mp hsuite
    exact ⟨of_decide_eq_true haccepted, Suite.signatureAlgorithm_of_from hfrom,
      Option.not_isSome_iff_eq_none.mp hhmac⟩

theorem checkForbidden_ok {infoId valueId : Option String} {types : List (Option String)}
    (h : checkForbidden infoId valueId types = .ok ()) :
    infoId = none ∧ valueId = none ∧ ∀ t ∈ types, t = none := by
  unfold checkForbidden at h
  obtain ⟨hinfo, h⟩ := refuse_eq_ok.mp h
  obtain ⟨hvalue, h⟩ := refuse_eq_ok.mp h
  obtain ⟨htypes, -⟩ := refuse_eq_ok.mp h
  refine ⟨Option.not_isSome_iff_eq_none.mp hinfo, Option.not_isSome_iff_eq_none.mp hvalue, ?_⟩
  simpa using htypes

/-! ## One coding at a time

Verification tries one coding and perhaps the other. It succeeds under one of them, and
everything it says is said under that one. -/

section Verify

variable {toXmldsigFragmentWith : Encode SignedInfo} {hash : Hash} {verifier : Verify}
  {accepted : List Suite} {signature : Signature} {elements : List Signed}

/-- **Coverage.** A signature that passes under one coding covers the elements, with the evidence
of that coding. -/
theorem covered_of_verifyWith {coding : ValueCoding}
    (h : verifyWith toXmldsigFragmentWith hash verifier accepted signature elements coding
      = .ok ()) :
    Covered toXmldsigFragmentWith hash verifier accepted signature elements := by
  obtain ⟨_, hforbidden, h⟩ := bind_eq_ok.mp h
  obtain ⟨_, hcanon, h⟩ := bind_eq_ok.mp h
  obtain ⟨suite, hsuite, h⟩ := bind_eq_ok.mp h
  obtain ⟨paired, hpair, h⟩ := bind_eq_ok.mp h
  obtain ⟨_, hchecks, h⟩ := bind_eq_ok.mp h
  obtain ⟨canonical, hencoded, hverified⟩ := bind_eq_ok.mp h
  obtain ⟨hinfo, hvalue, htypes⟩ := checkForbidden_ok hforbidden
  obtain ⟨haccepted, halg, hhmac⟩ := checkSuite_ok hsuite
  obtain ⟨hfew, huri, σ, hσ⟩ := exists_equiv_of_pair hpair
  refine ⟨suite, haccepted, halg, ⟨coding, canonical, ?_, hverified⟩, hfew, ⟨σ, fun i => ?_⟩,
    (require_eq_ok.mp hcanon).1, ⟨hinfo, hvalue, ?_, hhmac⟩⟩
  · exact mapError_eq_ok.mp hencoded
  · obtain ⟨_, htransforms, hreference⟩ := bind_eq_ok.mp (forM_eq_ok.mp hchecks _ (hσ i))
    obtain ⟨hmethod, hdigest⟩ := checkReference_ok hreference
    exact ⟨huri _ (hσ i), transforms_of_check htransforms, hmethod, hdigest⟩
  · intro r hr
    exact htypes r.type (List.mem_map_of_mem hr)

end Verify

/-- **What a verified signature covers.** In both generations a signature that verifies does so
under one coding of its `SignedInfo`, and its references, at most four, correspond one to one to
the elements supplied, each covering its own. -/
theorem verify_covered (toXmldsigFragmentWith : Encode SignedInfo) (hash : Hash)
    (verifier : Verify) (accepted : List Suite) (signature : Signature)
    (elements : List Signed) :
    (Iso2.verify toXmldsigFragmentWith hash verifier signature elements = .ok () →
        Covered toXmldsigFragmentWith hash verifier [.ecdsaSha256] signature elements)
      ∧ (Iso20.verify toXmldsigFragmentWith hash verifier signature elements accepted = .ok () →
        Covered toXmldsigFragmentWith hash verifier accepted signature elements) := by
  constructor
  · intro h
    obtain ⟨coding, hcoding⟩ := exists_coding h
    exact covered_of_verifyWith hcoding
  · intro h
    obtain ⟨coding, hcoding⟩ := exists_coding h
    exact covered_of_verifyWith hcoding

/-- A signature over two elements, verified over the bytes of either coding, covers them, also where
they are supplied in the other order. -/
theorem verify_covered_sample :
    Covered Sample.xmldsigPair Sample.pairHash (Sample.verifier (Sample.pairBytes .literal))
        [.ecdsaSha256] ⟨none, Sample.pairInfo, ⟨none, Sample.signatureValue⟩⟩
        [⟨"ID2", [0x81]⟩, ⟨"ID1", [0x80]⟩]
      ∧ Covered Sample.xmldsigPair Sample.pairHash (Sample.verifier (Sample.pairBytes .referenced))
        [.ecdsaSha512, .ecdsaSha256] ⟨none, Sample.pairInfo, ⟨none, Sample.signatureValue⟩⟩
        [⟨"ID2", [0x81]⟩, ⟨"ID1", [0x80]⟩] :=
  ⟨(verify_covered _ _ _ [] _ _).1 (by decide +kernel),
    (verify_covered _ _ _ _ _ _).2 (by decide +kernel)⟩

end Iso15118.Pnc
