import Mathlib.Data.Nat.Find
import Iso15118.Pnc.Pki.Chain

/-!
# What a validated chain is

The decision of `validate` in the terms of path validation, and how the path it returns relates
to the part of the chain it looked at.

* **`Certifies`** — an issuer stands behind a certificate: the names match, it may issue, and the
  signature verifies under its key;
* **`walk_ok_iff`** — the walk stops at the first certificate an anchor issued, and has checked
  every link below it and nothing above it;
* **`validate_exact`** — a chain is accepted exactly when it has a path to an anchor;
* **`isPath_of_nothingFollows`** — the certificates returned are a path when the anchored one is
  the last of them, and are none when what follows it is not named as its issuer.
-/

namespace Iso15118.Pnc.Pki

open Iso15118.Lib

/-! ## Standing behind a certificate

The relation the decision is about, without the order in which its conditions are checked. -/

/-- The certificate is a CA whose constraints leave room for `below` certificates, and whose key
may sign certificates if it says what its key is for. -/
def Certificate.MayIssue (issuer : Certificate) (below : Nat) : Prop :=
  ∃ constraints, issuer.basicConstraints = some constraints ∧ constraints.ca = true
    ∧ (∀ limit, constraints.pathLen = some limit → below ≤ limit)
    ∧ ∀ usage, issuer.keyUsage = some usage → usage.contains .keyCertSign = true

/-- `issuer` stands behind `cert`, with `below` certificates under it. -/
structure Certifies (verifier : VerifyWith) (below : Nat) (issuer cert : Certificate) : Prop where
  named : issuer.subject.encoded = cert.issuer.encoded
  mayIssue : issuer.MayIssue below
  signed : verifier issuer.curve.suite issuer.publicKey cert.tbs cert.signature = .ok ()

/-- -20 alone: a certificate is valid only within its issuer's validity. -/
def Within (rules : Rules) (cert issuer : Certificate) : Prop :=
  rules = .iso20 → issuer.notBefore ≤ cert.notBefore ∧ cert.notAfter ≤ issuer.notAfter

/-- The entry parses to an anchor valid now that stands behind `cert`. -/
def Anchors (verifier : VerifyWith) (rules : Rules) (now : Int) (below : Nat) (cert : Certificate)
    (entry : TrustAnchor) (anchor : Certificate) : Prop :=
  Certificate.parse entry.der = .ok anchor ∧ anchor.isValidAt now = true
    ∧ Certifies verifier below anchor cert ∧ Within rules cert anchor

/-- A configured anchor stands behind the certificate. -/
def Anchored (verifier : VerifyWith) (anchors : List TrustAnchor) (rules : Rules) (now : Int)
    (below : Nat) (cert : Certificate) : Prop :=
  ∃ entry ∈ anchors, ∃ anchor, Anchors verifier rules now below cert entry anchor

/-- Every certificate below position `stop` is certified by the next one. -/
def Linked (verifier : VerifyWith) (rules : Rules) (index stop : Nat) (certs : List Certificate) :
    Prop :=
  ∀ i < stop, ∀ cert issuer, certs[i]? = some cert → certs[i + 1]? = some issuer →
    Certifies verifier (index + i) issuer cert ∧ Within rules cert issuer

/-- The leaf is no CA, and carries the key usage and the domain component its profile asks for. -/
def Profile.Met (p : Profile) (leaf : Certificate) : Prop :=
  (∀ constraints, leaf.basicConstraints = some constraints → constraints.ca = false)
    ∧ (∀ wanted, p.requiredKeyUsage = some wanted →
        ∃ usage, leaf.keyUsage = some usage ∧ usage.contains wanted = true)
    ∧ ∀ wanted, p.requiredDomainComponent = some wanted →
        leaf.subject.domainComponent = some wanted

/-! ## The checks, one by one

Each check succeeds exactly when its condition holds; the errors are of no concern here. -/

theorem checkIssuer_ok_iff (issuer : Certificate) (below index : Nat) :
    checkIssuer issuer below index = .ok () ↔ issuer.MayIssue below := by
  unfold checkIssuer Certificate.MayIssue
  cases hbc : issuer.basicConstraints with
  | none => simp
  | some constraints =>
    simp only [refuse_eq_ok, Option.some.injEq, exists_eq_left']
    cases constraints.pathLen <;> cases issuer.keyUsage <;> simp

theorem verifySignature_ok_iff (verifier : VerifyWith) (cert issuer : Certificate) (index : Nat) :
    verifySignature verifier cert issuer index = .ok ()
      ↔ verifier issuer.curve.suite issuer.publicKey cert.tbs cert.signature = .ok () :=
  mapError_eq_ok

theorem nests_iff (rules : Rules) (cert issuer : Certificate) :
    nests rules cert issuer = true ↔ Within rules cert issuer := by
  unfold nests Within
  cases rules with
  | iso2 => simp
  | iso20 => simp

theorem checkLink_ok_iff (verifier : VerifyWith) (rules : Rules) (cert issuer : Certificate)
    (index : Nat) :
    checkLink verifier rules cert issuer index = .ok ()
      ↔ Certifies verifier index issuer cert ∧ Within rules cert issuer := by
  unfold checkLink
  rw [refuse_eq_ok, not_not]
  constructor
  · rintro ⟨hname, h⟩
    obtain ⟨_, hissuer, h⟩ := bind_eq_ok.mp h
    obtain ⟨_, hsigned, h⟩ := bind_eq_ok.mp h
    obtain ⟨hnests, -⟩ := refuse_eq_ok.mp h
    exact ⟨⟨hname, (checkIssuer_ok_iff ..).mp hissuer, (verifySignature_ok_iff ..).mp hsigned⟩,
      (nests_iff ..).mp (not_not.mp hnests)⟩
  · rintro ⟨⟨hname, hissuer, hsigned⟩, hwithin⟩
    refine ⟨hname, bind_eq_ok.mpr ⟨(), (checkIssuer_ok_iff ..).mpr hissuer, ?_⟩⟩
    refine bind_eq_ok.mpr ⟨(), (verifySignature_ok_iff ..).mpr hsigned, ?_⟩
    exact refuse_eq_ok.mpr ⟨not_not.mpr ((nests_iff ..).mpr hwithin), rfl⟩

/-- The check of the leaf is its profile, condition by condition. -/
theorem checkLeaf_ok_iff (p : Profile) (leaf : Certificate) :
    p.checkLeaf leaf = .ok () ↔ p.Met leaf := by
  have hca : ¬ leaf.basicConstraints.any (·.ca) = true
      ↔ ∀ constraints, leaf.basicConstraints = some constraints → constraints.ca = false := by
    cases leaf.basicConstraints <;> simp
  have husage : p.checkKeyUsage leaf = .ok ()
      ↔ ∀ wanted, p.requiredKeyUsage = some wanted →
        ∃ usage, leaf.keyUsage = some usage ∧ usage.contains wanted = true := by
    unfold Profile.checkKeyUsage
    cases p.requiredKeyUsage with
    | none => simp
    | some wanted => cases leaf.keyUsage <;> simp
  have hdomain : p.checkDomainComponent leaf = .ok ()
      ↔ ∀ wanted, p.requiredDomainComponent = some wanted →
        leaf.subject.domainComponent = some wanted := by
    unfold Profile.checkDomainComponent
    cases p.requiredDomainComponent with
    | none => simp
    | some wanted => simp
  unfold Profile.checkLeaf Profile.Met
  rw [refuse_eq_ok, hca]
  constructor
  · rintro ⟨hleaf, h⟩
    obtain ⟨_, hku, hdc⟩ := bind_eq_ok.mp h
    exact ⟨hleaf, husage.mp hku, hdomain.mp hdc⟩
  · rintro ⟨hleaf, hku, hdc⟩
    exact ⟨hleaf, bind_eq_ok.mpr ⟨(), husage.mpr hku, hdomain.mpr hdc⟩⟩

/-! ## The anchor search

Every condition is part of the selection, so an entry that fails one is passed over and the
search goes on. -/

section Search

variable {verifier : VerifyWith} {rules : Rules} {now : Int} {cert : Certificate}
  {below index : Nat}

/-- One entry is either the anchor, or is passed over. -/
theorem findAnchorFrom_cons (verifier : VerifyWith) (rules : Rules) (now : Int) (cert : Certificate)
    (below index : Nat) (outlived : Bool) (entry : TrustAnchor) (rest : List TrustAnchor) :
    (∃ anchor, Anchors verifier rules now below cert entry anchor
        ∧ findAnchorFrom verifier rules now cert below index outlived (entry :: rest)
          = .ok (anchor, entry.source))
      ∨ ((∀ anchor, ¬ Anchors verifier rules now below cert entry anchor)
        ∧ ∃ outlived', findAnchorFrom verifier rules now cert below index outlived (entry :: rest)
          = findAnchorFrom verifier rules now cert below index outlived' rest) := by
  rw [findAnchorFrom]
  -- an entry that does not parse is passed over
  cases hparse : Certificate.parse entry.der with
  | error e =>
    refine .inr ⟨fun anchor h => ?_, outlived, rfl⟩
    have hok := h.1
    rw [hparse] at hok
    cases hok
  | ok anchor =>
    -- each condition that fails rules the entry out; the last one standing is the anchor
    have hpass (hfails : ¬ Anchors verifier rules now below cert entry anchor) :
        ∀ anchor', ¬ Anchors verifier rules now below cert entry anchor' := by
      intro anchor' h
      have hsame := h.1
      rw [hparse] at hsame
      cases hsame
      exact hfails h
    simp only
    by_cases hname : anchor.subject.encoded ≠ cert.issuer.encoded
    · rw [if_pos hname]
      exact .inr ⟨hpass fun h => hname h.2.2.1.named, outlived, rfl⟩
    rw [if_neg hname]
    by_cases hvalid : ¬ anchor.isValidAt now = true
    · rw [if_pos hvalid]
      exact .inr ⟨hpass fun h => hvalid h.2.1, outlived, rfl⟩
    rw [if_neg hvalid]
    by_cases hissuer : checkIssuer anchor below index ≠ .ok ()
    · rw [if_pos hissuer]
      exact .inr ⟨hpass fun h => hissuer ((checkIssuer_ok_iff ..).mpr h.2.2.1.mayIssue), outlived,
        rfl⟩
    rw [if_neg hissuer]
    by_cases hnests : ¬ nests rules cert anchor = true
    · rw [if_pos hnests]
      exact .inr ⟨hpass fun h => hnests ((nests_iff ..).mpr h.2.2.2), true, rfl⟩
    rw [if_neg hnests]
    by_cases hsigned : verifySignature verifier cert anchor index = .ok ()
    · rw [if_pos hsigned]
      exact .inl ⟨anchor, ⟨hparse, not_not.mp hvalid,
        ⟨not_not.mp hname, (checkIssuer_ok_iff ..).mp (not_not.mp hissuer),
          (verifySignature_ok_iff ..).mp hsigned⟩,
        (nests_iff ..).mp (not_not.mp hnests)⟩, rfl⟩
    · rw [if_neg hsigned]
      exact .inr ⟨hpass fun h => hsigned ((verifySignature_ok_iff ..).mpr h.2.2.1.signed), outlived,
        rfl⟩

/-- What the search returns is one of the anchors, and stands behind the certificate. Induction
on the anchors left to try. -/
theorem anchors_of_findAnchorFrom {entries : List TrustAnchor} {outlived : Bool}
    {anchor : Certificate} {source : String}
    (h : findAnchorFrom verifier rules now cert below index outlived entries
      = .ok (anchor, source)) :
    ∃ entry ∈ entries, entry.source = source
      ∧ Anchors verifier rules now below cert entry anchor := by
  induction entries generalizing outlived with
  | nil =>
    unfold findAnchorFrom at h
    split at h
    · cases h
    · cases h
  | cons entry rest ih =>
    rcases findAnchorFrom_cons verifier rules now cert below index outlived entry rest with
      ⟨anchor', hanchors, heq⟩ | ⟨-, outlived', heq⟩
    · rw [heq] at h
      cases h
      exact ⟨entry, List.mem_cons_self .., rfl, hanchors⟩
    · rw [heq] at h
      obtain ⟨entry', hmem, hrest⟩ := ih h
      exact ⟨entry', List.mem_cons_of_mem _ hmem, hrest⟩

/-- The search finds an anchor when there is one. -/
theorem exists_findAnchorFrom {entries : List TrustAnchor} {outlived : Bool}
    (h : ∃ entry ∈ entries, ∃ anchor, Anchors verifier rules now below cert entry anchor) :
    ∃ found, findAnchorFrom verifier rules now cert below index outlived entries = .ok found := by
  induction entries generalizing outlived with
  | nil =>
    obtain ⟨entry, hmem, -⟩ := h
    cases hmem
  | cons entry rest ih =>
    rcases findAnchorFrom_cons verifier rules now cert below index outlived entry rest with
      ⟨anchor', -, heq⟩ | ⟨hnot, outlived', heq⟩
    · exact ⟨_, heq⟩
    · obtain ⟨entry', hmem, anchor, hanchors⟩ := h
      rcases List.mem_cons.mp hmem with rfl | hmem
      · exact absurd hanchors (hnot anchor)
      · rw [heq]
        exact ih ⟨entry', hmem, anchor, hanchors⟩

/-- Some configured anchor stands behind the certificate. -/
theorem exists_findAnchor_iff {anchors : List TrustAnchor} :
    (∃ found, findAnchor verifier anchors rules now cert below index = .ok found)
      ↔ ∃ entry ∈ anchors, ∃ anchor, Anchors verifier rules now below cert entry anchor := by
  constructor
  · rintro ⟨⟨anchor, source⟩, h⟩
    obtain ⟨entry, hmem, -, hanchors⟩ := anchors_of_findAnchorFrom h
    exact ⟨entry, hmem, anchor, hanchors⟩
  · exact exists_findAnchorFrom

end Search

/-! ## The walk

The walk stops at the least position an anchor stands behind. If there is a path to any position,
the links below the least one are among its links. -/

section Walk

variable {verifier : VerifyWith} {anchors : List TrustAnchor} {rules : Rules} {now : Int}

/-- `k` is the first position of the chain whose certificate an anchor issued, and `found` is
that anchor. -/
def FirstAnchored (verifier : VerifyWith) (anchors : List TrustAnchor) (rules : Rules) (now : Int)
    (index : Nat) (certs : List Certificate) (k : Nat) (found : Certificate × String) : Prop :=
  (∃ cert, certs[k]? = some cert
      ∧ findAnchor verifier anchors rules now cert (index + k) (index + k) = .ok found)
    ∧ ∀ i < k, ∀ cert, certs[i]? = some cert →
      ¬ ∃ other, findAnchor verifier anchors rules now cert (index + i) (index + i) = .ok other

theorem firstAnchored_zero_iff (index : Nat) (cert : Certificate) (above : List Certificate)
    (found : Certificate × String) :
    FirstAnchored verifier anchors rules now index (cert :: above) 0 found
      ↔ findAnchor verifier anchors rules now cert index index = .ok found := by
  constructor
  · rintro ⟨⟨c, hc, hfound⟩, -⟩
    cases hc
    exact hfound
  · intro hfound
    exact ⟨⟨cert, rfl, hfound⟩, fun i hi => absurd hi (Nat.not_lt_zero i)⟩

/-- Above a certificate no anchor issued, the first anchored position is that of the rest. -/
theorem firstAnchored_succ_iff (index k : Nat) (cert : Certificate) (above : List Certificate)
    (found : Certificate × String) :
    FirstAnchored verifier anchors rules now index (cert :: above) (k + 1) found
      ↔ (¬ ∃ other, findAnchor verifier anchors rules now cert index index = .ok other)
        ∧ FirstAnchored verifier anchors rules now (index + 1) above k found := by
  have hshift (i : Nat) : index + 1 + i = index + (i + 1) := by omega
  unfold FirstAnchored
  rw [Nat.forall_lt_succ_left]
  simp only [hshift, List.getElem?_cons_zero, List.getElem?_cons_succ, Option.some.injEq,
    forall_eq', Nat.add_zero]
  exact and_left_comm

/-- The links of a chain are its lowest one and those of the rest. -/
theorem linked_succ_iff (index k : Nat) (cert issuer : Certificate) (rest : List Certificate) :
    Linked verifier rules index (k + 1) (cert :: issuer :: rest)
      ↔ (Certifies verifier index issuer cert ∧ Within rules cert issuer)
        ∧ Linked verifier rules (index + 1) k (issuer :: rest) := by
  have hshift (i : Nat) : index + 1 + i = index + (i + 1) := by omega
  unfold Linked
  rw [Nat.forall_lt_succ_left]
  simp only [hshift, List.getElem?_cons_zero, List.getElem?_cons_succ, Option.some.injEq,
    Nat.add_zero, Nat.zero_add]
  refine and_congr_left' ⟨fun h => h cert issuer rfl rfl, ?_⟩
  rintro h _ _ rfl rfl
  exact h

/-- **What the walk checks.** It ends at the first certificate an anchor issued, and every link
below that one has been checked. Induction on the chain, the leaf's end first. -/
theorem walk_ok_iff (index : Nat) (certs : List Certificate) (found : Certificate × String) :
    walk verifier anchors rules now index certs = .ok found
      ↔ ∃ k, FirstAnchored verifier anchors rules now index certs k found
        ∧ Linked verifier rules index k certs := by
  -- induction on the chain, with the depth of its first certificate
  induction certs generalizing index with
  | nil =>
    constructor
    · intro h
      cases h
    · rintro ⟨k, ⟨⟨cert, hcert, -⟩, -⟩, -⟩
      cases hcert
  | cons cert above ih =>
    constructor
    -- the walk ends at this certificate, or the link to its issuer holds and the walk goes on
    · intro h
      unfold walk at h
      split at h
      · next hfound =>
        cases h
        exact ⟨0, (firstAnchored_zero_iff ..).mpr hfound, fun i hi => absurd hi (Nat.not_lt_zero i)⟩
      · next hnone =>
        split at h
        · cases h
        · next issuer rest =>
          obtain ⟨_, hlink, hwalk⟩ := bind_eq_ok.mp h
          obtain ⟨k, hfirst, hlinked⟩ := (ih (index + 1)).mp hwalk
          have hnot : ¬ ∃ other,
              findAnchor verifier anchors rules now cert index index = .ok other := by
            rintro ⟨other, hother⟩
            rw [hnone] at hother
            cases hother
          exact ⟨k + 1, (firstAnchored_succ_iff ..).mpr ⟨hnot, hfirst⟩,
            (linked_succ_iff ..).mpr ⟨(checkLink_ok_iff ..).mp hlink, hlinked⟩⟩
    -- the first certificate an anchor certifies is this one, or one above it
    · rintro ⟨k, hfirst, hlinked⟩
      unfold walk
      cases k with
      | zero => rw [(firstAnchored_zero_iff ..).mp hfirst]
      | succ k =>
        obtain ⟨hnot, hfirst⟩ := (firstAnchored_succ_iff ..).mp hfirst
        cases above with
        | nil =>
          obtain ⟨⟨c, hc, -⟩, -⟩ := hfirst
          cases hc
        | cons issuer rest =>
          obtain ⟨hlink, hlinked⟩ := (linked_succ_iff ..).mp hlinked
          have hwalk := (ih (index + 1)).mpr ⟨k, hfirst, hlinked⟩
          split
          · next other hother => exact absurd ⟨other, hother⟩ hnot
          · exact bind_eq_ok.mpr ⟨(), (checkLink_ok_iff ..).mpr hlink, hwalk⟩

/-- Some certificate of the chain is one that an anchor issued, with every link below it in
place. -/
def HasPath (verifier : VerifyWith) (anchors : List TrustAnchor) (rules : Rules) (now : Int)
    (certs : List Certificate) : Prop :=
  ∃ k cert, certs[k]? = some cert
    ∧ (∃ entry ∈ anchors, ∃ anchor, Anchors verifier rules now k cert entry anchor)
    ∧ Linked verifier rules 0 k certs

/-- The walk finds a path if there is one: it stops at the least anchored position, and the links
below any other are links below that one too. -/
theorem exists_walk_iff (certs : List Certificate) :
    (∃ found, walk verifier anchors rules now 0 certs = .ok found)
      ↔ HasPath verifier anchors rules now certs := by
  constructor
  · rintro ⟨found, h⟩
    obtain ⟨k, ⟨⟨cert, hcert, hfound⟩, -⟩, hlinked⟩ := (walk_ok_iff 0 certs found).mp h
    rw [Nat.zero_add] at hfound
    exact ⟨k, cert, hcert, exists_findAnchor_iff.mp ⟨found, hfound⟩, hlinked⟩
  · rintro ⟨k, cert, hcert, hanchor, hlinked⟩
    obtain ⟨found, hfound⟩ := exists_findAnchor_iff.mpr hanchor
    let Anchored (j : Nat) : Prop := ∃ c, certs[j]? = some c
      ∧ ∃ other, findAnchor verifier anchors rules now c j j = .ok other
    have hsome : ∃ j, Anchored j := ⟨k, cert, hcert, found, hfound⟩
    classical
    obtain ⟨c, hc, other, hother⟩ := Nat.find_spec hsome
    refine ⟨other, (walk_ok_iff 0 certs other).mpr ⟨Nat.find hsome, ⟨⟨c, hc, ?_⟩, ?_⟩, ?_⟩⟩
    · rw [Nat.zero_add]
      exact hother
    · intro i hi c' hc' hfound'
      rw [Nat.zero_add] at hfound'
      exact Nat.find_min hsome hi ⟨c', hc', hfound'⟩
    · intro i hi
      exact hlinked i (Nat.lt_of_lt_of_le hi (Nat.find_le ⟨cert, hcert, found, hfound⟩))

end Walk

/-! ## Before the walk

What is asked of the chain as a whole. None of it depends on the anchors. -/

/-- The certificates of the chain, in order. -/
def Parsed (chain : List (List UInt8)) (certs : List Certificate) : Prop :=
  List.Forall₂ (fun der cert => Certificate.parse der = .ok cert) chain certs

theorem parseAll_ok_iff (chain : List (List UInt8)) (certs : List Certificate) :
    parseAll chain = .ok certs ↔ Parsed chain certs := by
  unfold parseAll Parsed
  simp only [mapM_eq_ok, mapError_eq_ok]
  generalize 0 = start
  induction chain generalizing start certs with
  | nil => simp
  | cons der chain ih =>
    simp only [List.zipIdx_cons, List.forall₂_cons_left_iff, ih]

theorem oversized_eq_none_iff (rules : Rules) (chain : List (List UInt8)) :
    oversized rules chain = none
      ↔ (rules = .iso20 → ∀ der ∈ chain, der.length ≤ iso20MaxCertificateLen) := by
  cases rules with
  | iso2 => simp [oversized]
  | iso20 =>
    unfold oversized
    rw [find?_zipIdx_eq_none (p := fun der : List UInt8 => der.length > iso20MaxCertificateLen)]
    simp

theorem checkValidity_ok_iff (certs : List Certificate) (now : Int) :
    checkValidity certs now = .ok () ↔ ∀ cert ∈ certs, cert.isValidAt now = true := by
  have hnone : (certs.zipIdx.find? fun entry => ¬ entry.1.isValidAt now) = none
      ↔ ∀ cert ∈ certs, cert.isValidAt now = true := by
    rw [find?_zipIdx_eq_none (p := fun cert : Certificate => ¬ cert.isValidAt now)]
    simp
  unfold checkValidity
  rw [← hnone]
  generalize (certs.zipIdx.find? fun entry => ¬ entry.1.isValidAt now) = refused
  cases refused with
  | none => simp
  | some entry => simp

/-- What `validate` asks before it walks: the chain's length and sizes, its certificates, the
leaf's profile, one curve and the validity of all. -/
structure Admissible (chain : List (List UInt8)) (policy : Policy) (now : Int)
    (certs : List Certificate) (leaf : Certificate) : Prop where
  length_pos : 1 ≤ chain.length
  length_le : chain.length ≤ 3
  sizes : policy.rules = .iso20 → ∀ der ∈ chain, der.length ≤ 1600
  parsed : Parsed chain certs
  first : certs.head? = some leaf
  profile : policy.profile.Met leaf
  curve : ∀ cert ∈ certs, cert.curve = leaf.curve
  valid : ∀ cert ∈ certs, cert.isValidAt now = true

/-- **What `validate` does.** It succeeds with a path exactly when the chain is admissible and the
walk succeeds; it returns the whole chain. -/
theorem validate_ok_iff (verifier : VerifyWith) (chain : List (List UInt8))
    (anchors : List TrustAnchor) (policy : Policy) (now : Int) (v : Validated) :
    validate verifier chain anchors policy now = .ok v
      ↔ Admissible chain policy now (v.leaf :: v.intermediates) v.leaf
        ∧ walk verifier anchors policy.rules now 0 (v.leaf :: v.intermediates)
          = .ok (v.anchor, v.anchorSource) := by
  unfold validate
  rw [refuse_eq_ok]
  constructor
  -- every refusal is one condition of an admissible chain
  · rintro ⟨hlen, h⟩
    split at h
    · cases h
    · next hsizes =>
      obtain ⟨certs, hparsed, h⟩ := bind_eq_ok.mp h
      simp only at h
      split at h
      · cases h
      · next leaf intermediates =>
        obtain ⟨_, hleaf, h⟩ := bind_eq_ok.mp h
        obtain ⟨hcurve, h⟩ := refuse_eq_ok.mp h
        obtain ⟨_, hvalid, h⟩ := bind_eq_ok.mp h
        obtain ⟨⟨anchor, source⟩, hwalk, h⟩ := bind_eq_ok.mp h
        cases h
        have hforall := (parseAll_ok_iff ..).mp hparsed
        refine ⟨⟨?_, ?_, (oversized_eq_none_iff ..).mp hsizes, hforall, rfl,
          (checkLeaf_ok_iff ..).mp hleaf, ?_, (checkValidity_ok_iff ..).mp hvalid⟩, hwalk⟩
        · rw [hforall.length_eq]
          exact Nat.le_add_left ..
        · exact not_lt.mp hlen
        · simpa using hcurve
  -- and with all of them met, the walk is what is left
  · rintro ⟨⟨-, hlen, hsizes, hparsed, -, hprofile, hcurve, hvalid⟩, hwalk⟩
    refine ⟨not_lt.mpr hlen, ?_⟩
    rw [(oversized_eq_none_iff ..).mpr hsizes]
    refine bind_eq_ok.mpr ⟨_, (parseAll_ok_iff ..).mpr hparsed, ?_⟩
    refine bind_eq_ok.mpr ⟨(), (checkLeaf_ok_iff ..).mpr hprofile, ?_⟩
    refine refuse_eq_ok.mpr ⟨by simpa using hcurve, ?_⟩
    refine bind_eq_ok.mpr ⟨(), (checkValidity_ok_iff ..).mpr hvalid, ?_⟩
    exact bind_eq_ok.mpr ⟨_, hwalk, rfl⟩

/-- **The path decision is exact.** A chain is accepted if and only if it is admissible and has a
path to an anchor, and the leaf returned is the chain's first certificate. -/
theorem validate_exact (verifier : VerifyWith) (chain : List (List UInt8))
    (anchors : List TrustAnchor) (policy : Policy) (now : Int) (leaf : Certificate) :
    (∃ v, validate verifier chain anchors policy now = .ok v ∧ v.leaf = leaf)
      ↔ ∃ certs, Admissible chain policy now certs leaf
        ∧ HasPath verifier anchors policy.rules now certs := by
  constructor
  · rintro ⟨v, h, rfl⟩
    obtain ⟨hadmissible, hwalk⟩ := (validate_ok_iff ..).mp h
    exact ⟨_, hadmissible, (exists_walk_iff _).mp ⟨_, hwalk⟩⟩
  · rintro ⟨certs, hadmissible, hpath⟩
    obtain ⟨⟨anchor, source⟩, hwalk⟩ := (exists_walk_iff _).mpr hpath
    obtain ⟨intermediates, rfl⟩ := List.head?_eq_some_iff.mp hadmissible.first
    exact ⟨⟨leaf, intermediates, anchor, source⟩, (validate_ok_iff ..).mpr ⟨hadmissible, hwalk⟩,
      rfl⟩

/-! ## The path that is returned

The chain comes back whole, while the walk has only looked at it up to the anchored certificate. -/

/-- The certificates returned are a path: each is certified by the next one, and the last by the
anchor. -/
def IsPath (verifier : VerifyWith) (v : Validated) : Prop :=
  (∀ i cert issuer, (v.leaf :: v.intermediates)[i]? = some cert →
      (v.leaf :: v.intermediates)[i + 1]? = some issuer → Certifies verifier i issuer cert)
    ∧ ∀ last, (v.leaf :: v.intermediates).getLast? = some last →
      Certifies verifier v.intermediates.length v.anchor last

/-- No certificate follows one that a configured anchor stands behind. -/
def NothingFollows (verifier : VerifyWith) (chain : List (List UInt8))
    (anchors : List TrustAnchor) (policy : Policy) (now : Int) : Prop :=
  ∀ certs i cert, Parsed chain certs → certs[i]? = some cert →
    Anchored verifier anchors policy.rules now i cert → i + 1 = certs.length

theorem Parsed.unique {chain : List (List UInt8)} {certs certs' : List Certificate}
    (h : Parsed chain certs) (h' : Parsed chain certs') : certs = certs' := by
  induction h generalizing certs' with
  | nil =>
    cases h'
    rfl
  | cons hparse _ ih =>
    cases h' with
    | cons hparse' hrest' =>
      rw [hparse] at hparse'
      cases hparse'
      rw [ih hrest']

section FirstAnchored

variable {verifier : VerifyWith} {anchors : List TrustAnchor} {rules : Rules} {now : Int}
  {certs : List Certificate} {k : Nat} {found : Certificate × String}

theorem FirstAnchored.lt_length (h : FirstAnchored verifier anchors rules now 0 certs k found) :
    k < certs.length := by
  obtain ⟨⟨cert, hcert, -⟩, -⟩ := h
  exact (List.getElem?_eq_some_iff.mp hcert).1

/-- The anchor stands behind the certificate it was found at. -/
theorem FirstAnchored.certifies (h : FirstAnchored verifier anchors rules now 0 certs k found)
    {cert : Certificate} (hcert : certs[k]? = some cert) : Certifies verifier k found.1 cert := by
  obtain ⟨⟨cert', hcert', hfound⟩, -⟩ := h
  rw [hcert] at hcert'
  cases hcert'
  rw [Nat.zero_add] at hfound
  obtain ⟨-, -, -, -, -, hcertifies, -⟩ := anchors_of_findAnchorFrom hfound
  exact hcertifies

/-- A configured anchor stands behind the certificate the walk ends at. -/
theorem FirstAnchored.anchored (h : FirstAnchored verifier anchors rules now 0 certs k found) :
    ∃ cert, certs[k]? = some cert ∧ Anchored verifier anchors rules now k cert := by
  obtain ⟨⟨cert, hcert, hfound⟩, -⟩ := h
  rw [Nat.zero_add] at hfound
  exact ⟨cert, hcert, exists_findAnchor_iff.mp ⟨found, hfound⟩⟩

/-- None stands behind those below it. -/
theorem FirstAnchored.not_anchored (h : FirstAnchored verifier anchors rules now 0 certs k found)
    {i : Nat} (hi : i < k) {cert : Certificate} (hcert : certs[i]? = some cert) :
    ¬ Anchored verifier anchors rules now i cert := by
  intro hanchored
  have hnone := h.2 i hi cert hcert
  rw [Nat.zero_add] at hnone
  exact hnone (exists_findAnchor_iff.mpr hanchored)

end FirstAnchored

/-- **When the returned chain is a path.** `validate` returns the whole chain that arrived,
wherever on it the anchor was found, and has checked nothing of what follows the anchored
certificate. So what it returns is a path if nothing does follow it. And it is none if anywhere a
certificate is not named as the issuer of the one before it, which happens nowhere but above an
anchored one. -/
theorem isPath_of_nothingFollows {verifier : VerifyWith} {chain : List (List UInt8)}
    {anchors : List TrustAnchor} {policy : Policy} {now : Int} {v : Validated}
    (h : validate verifier chain anchors policy now = .ok v) :
    (NothingFollows verifier chain anchors policy now → IsPath verifier v)
      ∧ ∀ certs i cert next, Parsed chain certs → certs[i]? = some cert →
        certs[i + 1]? = some next → next.subject.encoded ≠ cert.issuer.encoded →
          ¬ IsPath verifier v ∧ ∃ j ≤ i, ∃ below, certs[j]? = some below
            ∧ Anchored verifier anchors policy.rules now j below := by
  obtain ⟨hadmissible, hwalk⟩ := (validate_ok_iff ..).mp h
  obtain ⟨k, hfirst, hlinked⟩ := (walk_ok_iff ..).mp hwalk
  obtain ⟨anchored, hanchored, hanchor⟩ := hfirst.anchored
  constructor
  · intro hnothing
    -- the walk has checked every link, since it ended at the last certificate
    have hlength := hnothing _ k anchored hadmissible.parsed hanchored hanchor
    have hk : k = v.intermediates.length := by
      rw [List.length_cons] at hlength
      omega
    constructor
    · intro i cert issuer hcert hissuer
      have hi : i + 1 < (v.leaf :: v.intermediates).length :=
        (List.getElem?_eq_some_iff.mp hissuer).1
      have hlink := (hlinked i (by omega) cert issuer hcert hissuer).1
      rwa [Nat.zero_add] at hlink
    · intro last hlast
      rw [List.getLast?_eq_getElem?, List.length_cons, Nat.add_sub_cancel, ← hk] at hlast
      rw [← hk]
      exact hfirst.certifies hlast
  · intro certs i cert next hparsed hcert hnext hname
    obtain rfl := hadmissible.parsed.unique hparsed
    refine ⟨fun hpath => hname (hpath.1 i cert next hcert hnext).named, ?_⟩
    -- below the anchored certificate the walk has compared the names
    have hle : k ≤ i := by
      by_contra hlt
      exact hname (hlinked i (by omega) cert next hcert hnext).1.named
    exact ⟨k, hle, anchored, hanchored, hanchor⟩

/-! ## A pinned intermediate

Certificates as bytes, small enough to be computed with: names of one letter, and a backend that
takes every signature. -/

namespace Sample

/-- One DER value of at most 255 bytes. -/
def tlv (tag : UInt8) (contents : List UInt8) : List UInt8 :=
  if contents.length < 0x80 then tag :: UInt8.ofNat contents.length :: contents
  else tag :: 0x81 :: UInt8.ofNat contents.length :: contents

def ecdsa : List UInt8 := tlv Tag.sequence (tlv Tag.oid Oid.ecdsaWithSha256)

/-- A name of one letter. -/
def name (letter : UInt8) : List UInt8 :=
  tlv Tag.sequence
    (tlv Tag.set (tlv Tag.sequence (tlv Tag.oid Oid.commonName ++ tlv 0x0C [letter])))

/-- From 2020-01-01 to 2050-01-01. -/
def validity : List UInt8 :=
  tlv Tag.sequence
    (tlv Tag.utcTime [0x32, 0x30, 0x30, 0x31, 0x30, 0x31, 0x30, 0x30, 0x30, 0x30, 0x30, 0x30, 0x5A]
      ++ tlv Tag.generalizedTime
        [0x32, 0x30, 0x35, 0x30, 0x30, 0x31, 0x30, 0x31, 0x30, 0x30, 0x30, 0x30, 0x30, 0x30, 0x5A])

def spki : List UInt8 :=
  tlv Tag.sequence
    (tlv Tag.sequence (tlv Tag.oid Oid.ecPublicKey ++ tlv Tag.oid Oid.prime256v1)
      ++ tlv Tag.bitString (0x00 :: 0x04 :: List.replicate 64 0x01))

/-- `BasicConstraints`, critical. -/
def constraints (ca : Bool) : List UInt8 :=
  tlv (Tag.context 3) (tlv Tag.sequence (tlv Tag.sequence
    (tlv Tag.oid Oid.basicConstraints ++ tlv Tag.boolean [0xFF]
      ++ tlv Tag.octetString (tlv Tag.sequence (if ca then tlv Tag.boolean [0xFF] else [])))))

def certificate (issuer subject : UInt8) (ca : Bool) : List UInt8 :=
  tlv Tag.sequence
    (tlv Tag.sequence
        (tlv (Tag.context 0) (tlv Tag.integer [0x02]) ++ tlv Tag.integer [0x01] ++ ecdsa
          ++ name issuer ++ validity ++ name subject ++ spki ++ constraints ca)
      ++ ecdsa
      ++ tlv Tag.bitString
        (0x00 :: tlv Tag.sequence (tlv Tag.integer [0x01] ++ tlv Tag.integer [0x01])))

def leaf : List UInt8 := certificate 0x43 0x4C false

def subCa2 : List UInt8 := certificate 0x42 0x43 true

def subCa1 : List UInt8 := certificate 0x41 0x42 true

def root : List UInt8 := certificate 0x41 0x41 true

/-- A backend that accepts every signature. -/
def acceptAll : VerifyWith := fun _ _ _ _ => .ok ()

def policy : Policy := ⟨.unchecked, .iso2⟩

/-- 2030-01-01. -/
def now : Int := 1893456000

end Sample

/-- The sample chain leads to its root. -/
theorem Sample.validates_root :
    ∃ v, validate Sample.acceptAll [Sample.leaf, Sample.subCa2, Sample.subCa1]
      [⟨Sample.root, "roots"⟩] Sample.policy Sample.now = .ok v := by
  have hok : (validate Sample.acceptAll [Sample.leaf, Sample.subCa2, Sample.subCa1]
      [⟨Sample.root, "roots"⟩] Sample.policy Sample.now).toOption.isSome = true := by
    decide +kernel
  obtain ⟨v, hv⟩ := Option.isSome_iff_exists.mp hok
  exact ⟨v, toOption_eq_some.mp hv⟩

/-- A single anchor with another name stands behind nothing. -/
theorem not_anchored_of_name {verifier : VerifyWith} {rules : Rules} {now : Int} {below : Nat}
    {der root : List UInt8} {source : String} {cert : Certificate}
    (hname : ((Certificate.parse der).toOption.all fun cert =>
      (Certificate.parse root).toOption.all fun anchor =>
        anchor.subject.encoded ≠ cert.issuer.encoded) = true)
    (hparse : Certificate.parse der = .ok cert) :
    ¬ Anchored verifier [⟨root, source⟩] rules now below cert := by
  rintro ⟨entry, hentry, anchor, hanchor, -, hcertifies, -⟩
  rw [List.mem_singleton.mp hentry] at hanchor
  rw [hparse, hanchor] at hname
  exact of_decide_eq_true hname hcertifies.named

/-- A leaf the root issued itself. -/
def Sample.shortLeaf : List UInt8 := certificate 0x41 0x4C false

/-- It is accepted with a Sub-CA behind it that has nothing to do with it. -/
theorem Sample.validates_shortLeaf :
    ∃ v, validate Sample.acceptAll [Sample.shortLeaf, Sample.subCa2]
      [⟨Sample.root, "roots"⟩] Sample.policy Sample.now = .ok v := by
  have hok : (validate Sample.acceptAll [Sample.shortLeaf, Sample.subCa2]
      [⟨Sample.root, "roots"⟩] Sample.policy Sample.now).toOption.isSome = true := by
    decide +kernel
  obtain ⟨v, hv⟩ := Option.isSome_iff_exists.mp hok
  exact ⟨v, toOption_eq_some.mp hv⟩

/-- A leaf under two Sub-CAs, anchored at the root: nothing follows the anchored certificate, and
what comes back is a path. A leaf of the root's own with a stray Sub-CA behind it: what comes back
is none. -/
theorem isPath_of_nothingFollows_root :
    (∃ v, validate Sample.acceptAll [Sample.leaf, Sample.subCa2, Sample.subCa1]
        [⟨Sample.root, "roots"⟩] Sample.policy Sample.now = .ok v
      ∧ IsPath Sample.acceptAll v)
      ∧ ∃ v, validate Sample.acceptAll [Sample.shortLeaf, Sample.subCa2]
          [⟨Sample.root, "roots"⟩] Sample.policy Sample.now = .ok v
        ∧ ¬ IsPath Sample.acceptAll v := by
  constructor
  -- the root is not in the chain, and certifies the last certificate only
  · obtain ⟨v, h⟩ := Sample.validates_root
    refine ⟨v, h, (isPath_of_nothingFollows h).1 ?_⟩
    intro certs i cert hparsed hcert hanchored
    obtain ⟨c₀, _, h₀, hrest, rfl⟩ := List.forall₂_cons_left_iff.mp hparsed
    obtain ⟨c₁, _, h₁, hrest', rfl⟩ := List.forall₂_cons_left_iff.mp hrest
    obtain ⟨c₂, _, h₂, hrest'', rfl⟩ := List.forall₂_cons_left_iff.mp hrest'
    cases hrest''
    match i with
    | 0 =>
      cases hcert
      exact absurd hanchored (not_anchored_of_name (by decide +kernel) h₀)
    | 1 =>
      cases hcert
      exact absurd hanchored (not_anchored_of_name (by decide +kernel) h₁)
    | 2 => rfl
    | i + 3 => cases hcert
  -- the issuer of the leaf is missing
  · obtain ⟨v, h⟩ := Sample.validates_shortLeaf
    have hparsed := ((validate_ok_iff ..).mp h).1.parsed
    obtain ⟨c₀, _, h₀, hrest, heq⟩ := List.forall₂_cons_left_iff.mp hparsed
    obtain ⟨c₁, _, h₁, hrest', rfl⟩ := List.forall₂_cons_left_iff.mp hrest
    have hnames : ((Certificate.parse Sample.shortLeaf).toOption.all fun cert =>
        (Certificate.parse Sample.subCa2).toOption.all fun next =>
          next.subject.encoded ≠ cert.issuer.encoded) = true := by
      decide +kernel
    rw [h₀, h₁] at hnames
    rw [heq] at hparsed
    exact ⟨v, h, ((isPath_of_nothingFollows h).2 _ 0 c₀ c₁ hparsed rfl rfl
      (of_decide_eq_true hnames)).1⟩

/-- The same chain with the lower Sub-CA pinned as the anchor. The path is found at the leaf, and
the two Sub-CAs come back above it: the upper one is not certified by the lower. -/
theorem not_isPath_pinned :
    ∃ v, validate Sample.acceptAll [Sample.leaf, Sample.subCa2, Sample.subCa1]
        [⟨Sample.subCa2, "pinned"⟩] Sample.policy Sample.now = .ok v
      ∧ ¬ IsPath Sample.acceptAll v := by
  have hok : (validate Sample.acceptAll [Sample.leaf, Sample.subCa2, Sample.subCa1]
        [⟨Sample.subCa2, "pinned"⟩] Sample.policy Sample.now).toOption.any (fun v =>
      (v.leaf :: v.intermediates).getLast?.any
        (fun last => v.anchor.subject.encoded ≠ last.issuer.encoded)) = true := by
    decide +kernel
  obtain ⟨v, hv, hany⟩ := (Option.any_eq_true _ _).mp hok
  obtain ⟨last, hlast, hname⟩ := (Option.any_eq_true _ _).mp hany
  refine ⟨v, toOption_eq_some.mp hv, fun hpath => ?_⟩
  exact absurd (hpath.2 last hlast).named (of_decide_eq_true hname)

end Iso15118.Pnc.Pki
