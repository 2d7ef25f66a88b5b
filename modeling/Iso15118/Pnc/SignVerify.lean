import Iso15118.Pnc.Coverage

/-!
# What is signed verifies, in any order

The reference order of a signature is its signer's, the element order its verifier's. Given a
verifier that accepts what the signer produced, a signature over elements with distinct ids
verifies against those elements in every order, and against no list with an element dropped,
added or renamed.

* **`pair_map`** — the greedy pairing finds every element, in whatever order they are supplied;
* **`ids_perm_of_verify`** — a list that verifies has the ids that were signed;
* **`sign_verify`** — both directions, for both generations.
-/

namespace Iso15118.Pnc

open Iso15118.Lib Iso15118.Exi

/-! ## The references find their elements

Ids are distinct, so a reference has one element to claim. It is still free when its turn comes,
in whatever order the elements stand. -/

theorem stripHash_referenceUri (id : String) : stripHash (referenceUri id) = some id := by
  unfold stripHash referenceUri
  rw [String.toList_append]
  show some (String.ofList id.toList) = some id
  rw [String.ofList_toList]

/-- Of elements with distinct ids, a reference finds the one it was built for, if it is still
free. -/
theorem claimElement_buildReference {hash : Hash} {suite : Suite} {supplied : List Signed}
    (hids : (supplied.map Signed.id).Nodup) {used : List Bool} {e : Signed} (he : e ∈ supplied)
    (hfree : ∀ i : Nat, supplied[i]? = some e → used[i]? = some false) :
    ∃ place, supplied[place]? = some e
      ∧ claimElement Reference.uri supplied used (buildReference hash suite e)
          = .ok (place, e) := by
  obtain ⟨i, hi⟩ := List.mem_iff_getElem?.mp he
  have hid : ((buildReference hash suite e).uri).bind stripHash = some e.id :=
    stripHash_referenceUri e.id
  unfold claimElement
  rw [hid]
  simp only
  cases hfind : supplied.zipIdx.find?
      (fun entry => decide (entry.1.id = e.id ∧ used[entry.2]? = some false)) with
  | none =>
    -- its own place would have been found
    have hnot := List.find?_eq_none.mp hfind (e, i) (List.mem_zipIdx_iff_getElem?.mpr hi)
    exact absurd (decide_eq_true ⟨rfl, hfree i hi⟩) hnot
  | some entry =>
    obtain ⟨found, place⟩ := entry
    have hmem := List.mem_zipIdx_iff_getElem?.mp (List.mem_of_find?_eq_some hfind)
    have htest := List.find?_some hfind
    have hname : found.id = e.id := (of_decide_eq_true htest).1
    have hsame : found = e :=
      List.inj_on_of_nodup_map hids (List.mem_of_getElem? hmem) he hname
    exact ⟨place, hsame ▸ hmem, by rw [hsame]⟩

/-- **The pairing.** References built for some elements pair with them, in whatever order the
elements are supplied. -/
theorem pair_map {hash : Hash} {suite : Suite} {elements supplied : List Signed}
    (hfew : elements.length ≤ maxSignedElements) (hids : (elements.map Signed.id).Nodup)
    (hperm : supplied.Perm elements) :
    pair (elements.map (buildReference hash suite)) Reference.uri supplied
      = .ok (elements.map fun e => (buildReference hash suite e, e)) := by
  have hsupplied : (supplied.map Signed.id).Nodup := (hperm.map Signed.id).nodup_iff.mpr hids
  unfold pair
  rw [List.length_map, if_neg (Nat.not_lt.mpr hfew), if_neg (not_not.mpr hperm.length_eq.symm)]
  have hclaim : ∀ used : List Bool, ∀ e ∈ elements,
      (∀ i : Nat, supplied[i]? = some e → used[i]? = some false) →
        ∃ place, supplied[place]? = some e
          ∧ claimElement Reference.uri supplied used (buildReference hash suite e)
              = .ok (place, e) := by
    intro used e he hfree
    exact claimElement_buildReference hsupplied (hperm.mem_iff.mpr he) hfree
  refine claimEach_map (buildReference hash suite) hclaim (List.Nodup.of_map _ hids) ?_
  intro e he i hi
  have hlt : i < supplied.length := (List.getElem?_eq_some_iff.mp hi).1
  rw [List.getElem?_replicate, if_pos hlt]

/-! ## What was signed verifies

Each check of the verifier is met by what the signer has put there. -/

section Profile

variable {toXmldsigFragmentWith : Encode SignedInfo} {hash : Hash} {signer : Sign}
  {verifier : Verify} {suite : Suite} {accepted : List Suite} {elements supplied : List Signed}
  {signature : Signature}

theorem checkSuite_signatureAlgorithm (h : suite ∈ accepted) :
    checkSuite suite.signatureAlgorithm none accepted = .ok suite := by
  have hfrom : Suite.fromSignatureAlgorithm suite.signatureAlgorithm = some suite := by
    cases suite <;> decide
  unfold checkSuite
  rw [hfrom, Option.filter_some, if_pos (decide_eq_true h)]
  rfl

theorem checkForbidden_built :
    checkForbidden none none ((elements.map (buildReference hash suite)).map (·.type))
      = .ok () := by
  have htypes : ((elements.map (buildReference hash suite)).map (·.type)).any (·.isSome)
      = false := by
    simp [buildReference]
  unfold checkForbidden
  rw [htypes]
  rfl

/-- What the references say of the elements they were built for passes. -/
theorem checks_built {e : Signed} :
    (do checkTransforms (transformAlgorithms (buildReference hash suite e).transforms)
        checkReference hash suite (buildReference hash suite e).digestMethod.algorithm
          (buildReference hash suite e).digestValue e : Except PncError Unit) = .ok () := by
  have hdigest : digestsEqual (hash suite e.fragment) (hash suite e.fragment) = true :=
    (digestsEqual_iff ..).mpr rfl
  show checkReference hash suite suite.digestAlgorithm (hash suite e.fragment) e = .ok ()
  unfold checkReference
  rw [if_neg (not_not.mpr rfl), if_pos hdigest]

/-- What `sign` made of the elements. -/
theorem sign_ok (h : sign toXmldsigFragmentWith hash signer suite elements = .ok signature) :
    elements.length ≤ maxSignedElements
      ∧ signature.signedInfo
          = ⟨none, ⟨canonicalExi⟩, ⟨suite.signatureAlgorithm, none⟩,
              elements.map (buildReference hash suite)⟩
      ∧ signature.signatureValue.id = none
      ∧ ∃ canonical, toXmldsigFragmentWith signature.signedInfo .literal = .ok canonical
          ∧ signer suite canonical = .ok signature.signatureValue.value := by
  obtain ⟨info, hinfo, h⟩ := bind_eq_ok.mp h
  obtain ⟨canonical, hcanonical, h⟩ := bind_eq_ok.mp h
  obtain ⟨value, hvalue, h⟩ := bind_eq_ok.mp h
  cases h
  unfold buildSignedInfo at hinfo
  obtain ⟨hfew, hinfo⟩ := refuse_eq_ok.mp hinfo
  refine ⟨Nat.le_of_not_lt hfew, (Except.ok.inj hinfo).symm, rfl, canonical, ?_, hvalue⟩
  exact mapError_eq_ok.mp hcanonical

/-- **Any order.** The signature verifies against the elements in any order, already under the
coding it was made in. -/
theorem verify_of_sign
    (hverifier : ∀ suite data value, signer suite data = .ok value →
      verifier suite data value = .ok ())
    (h : sign toXmldsigFragmentWith hash signer suite elements = .ok signature)
    (hids : (elements.map Signed.id).Nodup) (haccepted : suite ∈ accepted)
    (hperm : supplied.Perm elements) :
    verifyWith toXmldsigFragmentWith hash verifier accepted signature supplied .literal
      = .ok () := by
  obtain ⟨hfew, hinfo, hid, canonical, hencode, hvalue⟩ := sign_ok h
  rw [hinfo] at hencode
  unfold verifyWith
  rw [hinfo, hid]
  refine bind_eq_ok.mpr ⟨(), checkForbidden_built, ?_⟩
  refine bind_eq_ok.mpr ⟨(), if_pos rfl, ?_⟩
  refine bind_eq_ok.mpr ⟨suite, checkSuite_signatureAlgorithm haccepted, ?_⟩
  refine bind_eq_ok.mpr ⟨_, pair_map hfew hids hperm, ?_⟩
  refine bind_eq_ok.mpr ⟨(), forM_eq_ok.mpr fun entry hentry => ?_, ?_⟩
  · obtain ⟨e, -, rfl⟩ := List.mem_map.mp hentry
    exact checks_built
  · have hencoded : encoded (toXmldsigFragmentWith _ .literal) = .ok canonical :=
      mapError_eq_ok.mpr hencode
    exact bind_eq_ok.mpr ⟨canonical, hencoded, hverifier suite canonical _ hvalue⟩

/-! ## What was not signed does not

A list that verifies has the ids of the one that was signed, each as often. An alteration changes
that. -/

/-- The elements a one-to-one correspondence leads to have the ids it keeps. -/
theorem map_perm_of_equiv {α β γ : Type} {xs : List α} {ys : List β} {f : α → γ} {g : β → γ}
    (σ : Fin xs.length ≃ Fin ys.length) (h : ∀ i, f (xs.get i) = g (ys.get (σ i))) :
    (ys.map g).Perm (xs.map f) := by
  have hys : (ys.map g : Multiset γ) = Finset.univ.val.map fun j => g (ys.get j) := by
    rw [Fin.univ_val_map]
    exact congrArg _ (List.ext_getElem (by simp) (by simp))
  have hxs : (xs.map f : Multiset γ) = Finset.univ.val.map fun i => f (xs.get i) := by
    rw [Fin.univ_val_map]
    exact congrArg _ (List.ext_getElem (by simp) (by simp))
  refine Multiset.coe_eq_coe.mp ?_
  calc (ys.map g : Multiset γ)
      = Finset.univ.val.map fun j => g (ys.get j) := hys
    _ = (Finset.univ.val.map σ).map fun j => g (ys.get j) := by rw [Multiset.map_univ_val_equiv]
    _ = Finset.univ.val.map fun i => f (xs.get i) := by
      rw [Multiset.map_map]
      exact Multiset.map_congr rfl fun i _ => (h i).symm
    _ = (xs.map f : Multiset γ) := hxs.symm

/-- **Which ids.** A list against which the signature verifies has the ids that were signed. -/
theorem ids_perm_of_verify {coding : ValueCoding}
    (hsign : sign toXmldsigFragmentWith hash signer suite elements = .ok signature)
    (h : verifyWith toXmldsigFragmentWith hash verifier accepted signature supplied coding
      = .ok ()) :
    (supplied.map Signed.id).Perm (elements.map Signed.id) := by
  obtain ⟨-, hinfo, -, -⟩ := sign_ok hsign
  obtain ⟨_, -, -, -, -, ⟨σ, hσ⟩, -⟩ := covered_of_verifyWith h
  have huris : (supplied.map fun e => some (referenceUri e.id)).Perm
      (signature.signedInfo.reference.map Reference.uri) :=
    map_perm_of_equiv σ fun i => (hσ i).uri
  rw [hinfo, List.map_map] at huris
  have hinjective : Function.Injective fun id => some (referenceUri id) := by
    intro a b hab
    have hstrip := congrArg (fun uri => uri.bind stripHash) hab
    simpa [stripHash_referenceUri] using hstrip
  refine (List.map_perm_map_iff hinjective).mp ?_
  rw [List.map_map, List.map_map]
  exact huris

/-- One element of the list is gone, is new, or has another id. -/
inductive Altered (elements : List Signed) : List Signed → Prop where
  | dropped {before after : List Signed} {e : Signed} (h : elements = before ++ e :: after) :
      Altered elements (before ++ after)
  | added {before after : List Signed} (e : Signed) (h : elements = before ++ after) :
      Altered elements (before ++ e :: after)
  | renamed {before after : List Signed} {e : Signed} (id : String)
      (h : elements = before ++ e :: after) (hid : id ≠ e.id) :
      Altered elements (before ++ { e with id := id } :: after)

/-- An altered list has other ids: their number differs, or how often the old id occurs. -/
theorem Altered.not_perm (h : Altered elements supplied) :
    ¬ (supplied.map Signed.id).Perm (elements.map Signed.id) := by
  intro hperm
  cases h with
  | dropped h =>
    have hlen := hperm.length_eq
    simp [h] at hlen
  | added e h =>
    have hlen := hperm.length_eq
    simp [h] at hlen
  | @renamed before after e id h hid =>
    have hcount := hperm.count_eq e.id
    simp [h, List.count_append, hid] at hcount

/-- What verifies against the elements in any order does not against an altered list. -/
theorem not_verify_of_altered {coding : ValueCoding} {altered : List Signed}
    (hsign : sign toXmldsigFragmentWith hash signer suite elements = .ok signature)
    (haltered : Altered elements altered) (hperm : supplied.Perm altered) :
    verifyWith toXmldsigFragmentWith hash verifier accepted signature supplied coding
      ≠ .ok () := by
  intro h
  have hids := ids_perm_of_verify hsign h
  exact haltered.not_perm ((hperm.map Signed.id).symm.trans hids)

theorem eitherCoding_of_literal {α : Type} {attempt : ValueCoding → Except PncError α} {a : α}
    (h : attempt .literal = .ok a) : eitherCoding attempt = .ok a := by
  unfold eitherCoding
  rw [h]

end Profile

/-- **Sign, then verify.** Assume the verifier accepts what the signer produced over the same
bytes. In both generations, what is signed over elements with distinct ids verifies against them
in every order, and against no list with an element dropped, added or renamed, in any order
either; and more than four elements are not signed. -/
theorem sign_verify (toXmldsigFragmentWith : Encode SignedInfo) (hash : Hash) (signer : Sign)
    (verifier : Verify)
    (hverifier : ∀ suite data value, signer suite data = .ok value →
      verifier suite data value = .ok ()) :
    (∀ elements signature, (elements.map Signed.id).Nodup →
        Iso2.sign toXmldsigFragmentWith hash signer elements = .ok signature →
          (∀ supplied, supplied.Perm elements →
              Iso2.verify toXmldsigFragmentWith hash verifier signature supplied = .ok ())
            ∧ ∀ altered supplied, Altered elements altered → supplied.Perm altered →
                Iso2.verify toXmldsigFragmentWith hash verifier signature supplied ≠ .ok ())
      ∧ (∀ suite accepted elements signature, suite ∈ accepted → (elements.map Signed.id).Nodup →
          Iso20.sign toXmldsigFragmentWith hash signer suite elements = .ok signature →
            (∀ supplied, supplied.Perm elements →
                Iso20.verify toXmldsigFragmentWith hash verifier signature supplied accepted
                  = .ok ())
              ∧ ∀ altered supplied, Altered elements altered → supplied.Perm altered →
                  Iso20.verify toXmldsigFragmentWith hash verifier signature supplied accepted
                    ≠ .ok ())
      ∧ ∀ elements, 4 < elements.length →
          Iso2.sign toXmldsigFragmentWith hash signer elements
              = .error (.tooManyReferences elements.length)
            ∧ ∀ suite, Iso20.sign toXmldsigFragmentWith hash signer suite elements
                = .error (.tooManyReferences elements.length) := by
  refine ⟨?_, ?_, ?_⟩
  · intro elements signature hids hsign
    refine ⟨fun supplied hperm => ?_, fun altered supplied haltered hperm h => ?_⟩
    · have haccepted : Iso2.suite ∈ [Iso2.suite] := List.mem_singleton_self _
      exact eitherCoding_of_literal (verify_of_sign hverifier hsign hids haccepted hperm)
    -- neither coding of the signature verifies over altered elements
    · obtain ⟨coding, hcoding⟩ := exists_coding h
      exact not_verify_of_altered hsign haltered hperm hcoding
  · intro suite accepted elements signature haccepted hids hsign
    refine ⟨fun supplied hperm => ?_, fun altered supplied haltered hperm h => ?_⟩
    · exact eitherCoding_of_literal (verify_of_sign hverifier hsign hids haccepted hperm)
    · obtain ⟨coding, hcoding⟩ := exists_coding h
      exact not_verify_of_altered hsign haltered hperm hcoding
  -- too many elements are refused before anything is hashed
  · intro elements hmany
    have hbuild : ∀ suite, buildSignedInfo hash suite elements
        = .error (.tooManyReferences elements.length) := fun suite => if_pos hmany
    have hsign : ∀ suite, Pnc.sign toXmldsigFragmentWith hash signer suite elements
        = .error (.tooManyReferences elements.length) := by
      intro suite
      unfold sign
      rw [hbuild]
      rfl
    exact ⟨hsign _, hsign⟩

namespace Sample

/-- What the sample's signer is asked to sign. -/
def signedBytes : List UInt8 :=
  signedInfoBytes [0xD5, 0x57, 0x79, 0x9B, 0xBD, 0xDF, 0xE3, 0x70] [] .literal

/-- A key that signs these bytes and nothing else. -/
def signer (bytes : List UInt8) : Sign := fun suite data =>
  if suite = .ecdsaSha256 ∧ data = bytes then .ok signatureValue
  else .error (.backend "signer")

theorem verifier_accepts (bytes : List UInt8) (suite : Suite) (data value : List UInt8)
    (h : signer bytes suite data = .ok value) : verifier bytes suite data value = .ok () := by
  unfold signer at h
  obtain ⟨hasked, hvalue⟩ := require_eq_ok.mp h
  exact if_pos ⟨hasked.1, hasked.2, (Except.ok.inj hvalue).symm⟩

end Sample

/-- Two elements are signed. They verify in the other order too, and do not verify if one is
dropped, or has another id. -/
theorem sign_verify_sample :
    let verify := Iso2.verify Sample.xmldsigPair Sample.pairHash
      (Sample.verifier (Sample.pairBytes .literal))
      ⟨none, Sample.pairInfo, ⟨none, Sample.signatureValue⟩⟩
    verify [⟨"ID2", [0x81]⟩, ⟨"ID1", [0x80]⟩] = .ok ()
      ∧ verify [⟨"ID2", [0x81]⟩] ≠ .ok ()
      ∧ verify [⟨"ID3", [0x81]⟩, ⟨"ID1", [0x80]⟩] ≠ .ok () := by
  have hsigned := (sign_verify Sample.xmldsigPair Sample.pairHash
    (Sample.signer (Sample.pairBytes .literal)) (Sample.verifier (Sample.pairBytes .literal))
    (Sample.verifier_accepts _)).1 [⟨"ID1", [0x80]⟩, ⟨"ID2", [0x81]⟩] _
    (by decide) (by decide +kernel : _ = Except.ok
      (⟨none, Sample.pairInfo, ⟨none, Sample.signatureValue⟩⟩ : Signature))
  refine ⟨hsigned.1 _ (List.Perm.swap ..), ?_, ?_⟩
  · exact hsigned.2 _ _ (@Altered.dropped [⟨"ID1", [0x80]⟩, ⟨"ID2", [0x81]⟩] [] [⟨"ID2", [0x81]⟩]
      ⟨"ID1", [0x80]⟩ rfl) (List.Perm.refl _)
  · exact hsigned.2 _ _ (@Altered.renamed [⟨"ID1", [0x80]⟩, ⟨"ID2", [0x81]⟩] [⟨"ID1", [0x80]⟩] []
      ⟨"ID2", [0x81]⟩ "ID3" rfl (by decide)) (List.Perm.swap ..)

end Iso15118.Pnc
