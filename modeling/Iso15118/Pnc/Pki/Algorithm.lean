import Iso15118.Pnc.Pki.Fields
import Iso15118.Pnc.Pki.Path

/-!
# The algorithm a certificate declares

A certificate names the algorithm it was signed with, twice; the signature is checked with the
suite of its issuer's curve. Nothing compares the two.

* **`Certificate.declared`** — the algorithm `signatureAlgorithm` names;
* **`walkCalls`** — the calls of `verify_with` that a validation makes, each with the certificate it
  is made for; **`validate_of_answers`** says that the outcome depends on nothing else the backend
  could answer, so that these are all of them;
* **`declared_checked_iff`** — when the algorithm declared is the suite of the call.
-/

namespace Iso15118.Pnc

/-- The algorithm identifier of a suite. -/
def Suite.oid : Suite → List UInt8
  | .ecdsaSha256 => Pki.Oid.ecdsaWithSha256
  | .ecdsaSha512 => Pki.Oid.ecdsaWithSha512

namespace Pki

open Iso15118.Lib

/-! ## What is declared

The name of an algorithm inside the certificate. The parser reads it and throws it away, so it is
taken from the bytes again. -/

/-- The algorithm the certificate's `signatureAlgorithm` names. -/
def Certificate.declared (cert : Certificate) : Except DerError (List UInt8) := do
  let f ← Certificate.fields cert.der
  return f.declared

/-! ## What is checked

Validation is a function of the backend, and what it asks the backend is not part of its result. The
calls are listed here beside the functions that make them, in the order they are made. -/

/-- One call of `verify_with`. -/
structure VerifyCall where
  suite : Suite
  publicKey : List UInt8
  data : List UInt8
  signature : List UInt8
  deriving DecidableEq

/-- What the backend answers a call. -/
def VerifyWith.answers (verifier : VerifyWith) (call : VerifyCall) : Except PncError Unit :=
  verifier call.suite call.publicKey call.data call.signature

/-- The call that checks the signature of `cert` under the key of `issuer`. -/
def signatureCall (cert issuer : Certificate) : VerifyCall where
  suite := issuer.curve.suite
  publicKey := issuer.publicKey
  data := cert.tbs
  signature := cert.signature

/-- It is the one call that `verify_signature` makes. -/
theorem verifySignature_eq (verifier : VerifyWith) (cert issuer : Certificate) (index : Nat) :
    verifySignature verifier cert issuer index
      = (verifier.answers (signatureCall cert issuer)).mapError fun _ => .badSignature index :=
  rfl

theorem verifySignature_ok_iff_answers (verifier : VerifyWith) (cert issuer : Certificate)
    (index : Nat) : verifySignature verifier cert issuer index = .ok ()
      ↔ verifier.answers (signatureCall cert issuer) = .ok () :=
  verifySignature_ok_iff ..

section Calls

variable (verifier : VerifyWith) (anchors : List TrustAnchor) (rules : Rules) (now : Int)

/-- The calls of the anchor search: one for each anchor that passes everything else, up to the first
whose key the signature is accepted under. -/
def anchorCalls (cert : Certificate) (below index : Nat) : List TrustAnchor → List VerifyCall
  | [] => []
  | entry :: rest =>
      match Certificate.parse entry.der with
      | .error _ => anchorCalls cert below index rest
      | .ok anchor =>
          if anchor.subject.encoded ≠ cert.issuer.encoded then anchorCalls cert below index rest
          else if ¬ anchor.isValidAt now then anchorCalls cert below index rest
          else if checkIssuer anchor below index ≠ .ok () then anchorCalls cert below index rest
          else if ¬ nests rules cert anchor then anchorCalls cert below index rest
          else if verifySignature verifier cert anchor index = .ok () then
            [signatureCall cert anchor]
          else signatureCall cert anchor :: anchorCalls cert below index rest

/-- The call of a link, which is made once the names and the issuer are in order. -/
def linkCalls (cert issuer : Certificate) (index : Nat) : List VerifyCall :=
  if issuer.subject.encoded ≠ cert.issuer.encoded then []
  else if checkIssuer issuer index (index + 1) ≠ .ok () then []
  else [signatureCall cert issuer]

/-- The calls of the walk, each with the certificate whose signature it is about. -/
def walkCalls (index : Nat) : List Certificate → List (Certificate × VerifyCall)
  | [] => []
  | cert :: above =>
      (anchorCalls verifier rules now cert index index anchors).map (cert, ·)
        ++ match findAnchor verifier anchors rules now cert index index with
          | .ok _ => []
          | .error _ =>
              match above with
              | [] => []
              | issuer :: _ =>
                  (linkCalls cert issuer index).map (cert, ·)
                    ++ if checkLink verifier rules cert issuer index = .ok () then
                        walkCalls (index + 1) above
                      else []

end Calls

/-! ### Nothing else is asked

Two backends that answer the listed calls alike cannot be told apart by a validation. By
induction on what is left to try, as the calls are made one after another and the next may depend
on the answer. -/

section Answers

variable {verifier verifier' : VerifyWith} {anchors : List TrustAnchor} {rules : Rules} {now : Int}

/-- An anchor is passed over without a call, whatever the backend; or its key is tried. -/
theorem anchorCalls_cons (verifier : VerifyWith) (rules : Rules) (now : Int) (cert : Certificate)
    (below index : Nat) (outlived : Bool) (entry : TrustAnchor) (rest : List TrustAnchor) :
    (anchorCalls verifier rules now cert below index (entry :: rest)
          = anchorCalls verifier rules now cert below index rest
        ∧ ∃ outlived', ∀ verifier',
          findAnchorFrom verifier' rules now cert below index outlived (entry :: rest)
            = findAnchorFrom verifier' rules now cert below index outlived' rest)
      ∨ ∃ anchor,
        anchorCalls verifier rules now cert below index (entry :: rest)
            = (if verifySignature verifier cert anchor index = .ok () then
                [signatureCall cert anchor]
              else
                signatureCall cert anchor :: anchorCalls verifier rules now cert below index rest)
          ∧ ∀ verifier',
            findAnchorFrom verifier' rules now cert below index outlived (entry :: rest)
              = if verifySignature verifier' cert anchor index = .ok () then
                  .ok (anchor, entry.source)
                else findAnchorFrom verifier' rules now cert below index outlived rest := by
  simp only [anchorCalls, findAnchorFrom]
  cases hparse : Certificate.parse entry.der with
  | error e => exact .inl ⟨rfl, outlived, fun _ => rfl⟩
  | ok anchor =>
    simp only
    -- every condition before the signature passes it over when it fails
    by_cases hname : anchor.subject.encoded ≠ cert.issuer.encoded
    · simp only [if_pos hname]
      exact .inl ⟨trivial, outlived, fun _ => rfl⟩
    simp only [if_neg hname]
    by_cases hvalid : ¬ anchor.isValidAt now = true
    · simp only [if_pos hvalid]
      exact .inl ⟨trivial, outlived, fun _ => rfl⟩
    simp only [if_neg hvalid]
    by_cases hissuer : checkIssuer anchor below index ≠ .ok ()
    · simp only [if_pos hissuer]
      exact .inl ⟨trivial, outlived, fun _ => rfl⟩
    simp only [if_neg hissuer]
    by_cases hnests : ¬ nests rules cert anchor = true
    · simp only [if_pos hnests]
      exact .inl ⟨trivial, true, fun _ => rfl⟩
    simp only [if_neg hnests]
    -- and then the signature decides
    exact .inr ⟨anchor, rfl, fun _ => rfl⟩

/-- The anchor search depends on the backend by its calls alone. Induction on the anchors left to
try. -/
theorem findAnchorFrom_of_answers {cert : Certificate} {below index : Nat} {outlived : Bool}
    {entries : List TrustAnchor}
    (h : ∀ call ∈ anchorCalls verifier rules now cert below index entries,
      verifier'.answers call = verifier.answers call) :
    findAnchorFrom verifier' rules now cert below index outlived entries
      = findAnchorFrom verifier rules now cert below index outlived entries := by
  induction entries generalizing outlived with
  | nil => rfl
  | cons entry rest ih =>
    rcases anchorCalls_cons verifier rules now cert below index outlived entry rest with
      ⟨hcalls, outlived', hfind⟩ | ⟨anchor, hcalls, hfind⟩
    · rw [hcalls] at h
      rw [hfind, hfind]
      exact ih h
    · rw [hcalls] at h
      -- the call is in the list, so that both are answered alike
      have hcall : verifySignature verifier' cert anchor index
          = verifySignature verifier cert anchor index := by
        rw [verifySignature_eq, verifySignature_eq]
        split at h
        · rw [h _ (List.mem_singleton_self _)]
        · rw [h _ List.mem_cons_self]
      rw [hfind, hfind, hcall]
      split at h
      · next hsigned => rw [if_pos hsigned, if_pos hsigned]
      · next hsigned =>
        rw [if_neg hsigned, if_neg hsigned]
        exact ih (List.forall_mem_cons.mp h).2

theorem checkLink_of_answers {cert issuer : Certificate} {index : Nat}
    (h : ∀ call ∈ linkCalls cert issuer index,
      verifier'.answers call = verifier.answers call) :
    checkLink verifier' rules cert issuer index = checkLink verifier rules cert issuer index := by
  unfold linkCalls at h
  unfold checkLink
  by_cases hname : issuer.subject.encoded ≠ cert.issuer.encoded
  · rw [if_pos hname, if_pos hname]
  rw [if_neg hname] at h
  rw [if_neg hname, if_neg hname]
  cases hissuer : checkIssuer issuer index (index + 1) with
  | error e => rfl
  | ok u =>
    rw [if_neg (by simp [hissuer])] at h
    have hcall : verifySignature verifier' cert issuer index
        = verifySignature verifier cert issuer index := by
      rw [verifySignature_eq, verifySignature_eq, h _ (List.mem_singleton_self _)]
    rw [hcall]

/-- **The walk asks nothing else.** A backend that answers the calls of a walk alike walks alike.
Induction on the chain. -/
theorem walk_of_answers {index : Nat} {certs : List Certificate}
    (h : ∀ x ∈ walkCalls verifier anchors rules now index certs,
      verifier'.answers x.2 = verifier.answers x.2) :
    walk verifier' anchors rules now index certs = walk verifier anchors rules now index certs := by
  -- induction on the chain: the calls of this certificate, then those of the ones above
  induction certs generalizing index with
  | nil => rfl
  | cons cert above ih =>
    unfold walkCalls at h
    obtain ⟨hsearch, habove⟩ := List.forall_mem_append.mp h
    have hfound : findAnchor verifier' anchors rules now cert index index
        = findAnchor verifier anchors rules now cert index index :=
      findAnchorFrom_of_answers fun call hcall => hsearch (cert, call) (List.mem_map_of_mem hcall)
    unfold walk
    rw [hfound]
    cases hanchor : findAnchor verifier anchors rules now cert index index with
    | ok found => rfl
    | error e =>
      rw [hanchor] at habove
      cases above with
      | nil => rfl
      | cons issuer rest =>
        -- the link is asked about before the walk goes on, and the rest only where it holds
        obtain ⟨hlink, hrest⟩ := List.forall_mem_append.mp habove
        have hchecked : checkLink verifier' rules cert issuer index
            = checkLink verifier rules cert issuer index :=
          checkLink_of_answers fun call hcall => hlink (cert, call) (List.mem_map_of_mem hcall)
        show (checkLink verifier' rules cert issuer index >>= fun _ => _)
          = checkLink verifier rules cert issuer index >>= fun _ => _
        rw [hchecked]
        cases hok : checkLink verifier rules cert issuer index with
        | error e => rfl
        | ok u =>
          rw [if_pos hok] at hrest
          exact ih hrest

/-- **`validate` asks nothing else.** -/
theorem validate_of_answers {chain : List (List UInt8)} {policy : Policy} {v : Validated}
    (hv : validate verifier chain anchors policy now = .ok v)
    (h : ∀ x ∈ walkCalls verifier anchors policy.rules now 0 (v.leaf :: v.intermediates),
      verifier'.answers x.2 = verifier.answers x.2) :
    validate verifier' chain anchors policy now = .ok v := by
  obtain ⟨hadmissible, hwalk⟩ := (validate_ok_iff ..).mp hv
  exact (validate_ok_iff ..).mpr ⟨hadmissible, (walk_of_answers h).trans hwalk⟩

end Answers

/-! ### What is relied on

Of the calls of a walk that succeeds, those that are accepted are one for each certificate up to the
first that an anchor stands behind: under the key of the next one, and at the end of that anchor. -/

section Accepted

variable {verifier : VerifyWith} {anchors : List TrustAnchor} {rules : Rules} {now : Int}

/-- The entry is the first of the configured anchors that stands behind the certificate. -/
def FirstAnchor (verifier : VerifyWith) (rules : Rules) (now : Int) (below : Nat)
    (cert : Certificate) (anchors : List TrustAnchor) (anchor : Certificate) : Prop :=
  ∃ before entry after, anchors = before ++ entry :: after
    ∧ Anchors verifier rules now below cert entry anchor
    ∧ ∀ other ∈ before, ∀ c, ¬ Anchors verifier rules now below cert other c

/-- The anchor search finds the first one. Induction on the anchors left to try. -/
theorem firstAnchor_of_findAnchorFrom {cert : Certificate} {below index : Nat} {outlived : Bool}
    {entries : List TrustAnchor} {anchor : Certificate} {source : String}
    (h : findAnchorFrom verifier rules now cert below index outlived entries
      = .ok (anchor, source)) :
    FirstAnchor verifier rules now below cert entries anchor := by
  induction entries generalizing outlived with
  | nil =>
    unfold findAnchorFrom at h
    split at h <;> cases h
  | cons entry rest ih =>
    rcases findAnchorFrom_cons verifier rules now cert below index outlived entry rest with
      ⟨anchor', hanchors, heq⟩ | ⟨hnot, outlived', heq⟩
    · rw [heq] at h
      cases h
      exact ⟨[], entry, rest, rfl, hanchors, fun other hother => by cases hother⟩
    · rw [heq] at h
      obtain ⟨before, entry', after, rfl, hanchors, hbefore⟩ := ih h
      exact ⟨entry :: before, entry', after, rfl, hanchors,
        List.forall_mem_cons.mpr ⟨hnot, hbefore⟩⟩

/-- There is one first anchor at most. -/
theorem FirstAnchor.unique {cert anchor anchor' : Certificate} {below : Nat}
    (h : FirstAnchor verifier rules now below cert anchors anchor)
    (h' : FirstAnchor verifier rules now below cert anchors anchor') : anchor = anchor' := by
  obtain ⟨before, entry, after, rfl, hanchors, hbefore⟩ := h
  obtain ⟨before', entry', after', heq, hanchors', hbefore'⟩ := h'
  -- neither stands before the other
  rcases List.append_eq_append_iff.mp heq with ⟨mid, rfl, hmid⟩ | ⟨mid, rfl, hmid⟩
  · cases mid with
    | nil =>
      cases hmid
      exact Except.ok.inj (hanchors.1.symm.trans hanchors'.1)
    | cons m mid =>
      cases hmid
      exact absurd hanchors (hbefore' entry (by simp) anchor)
  · cases mid with
    | nil =>
      cases hmid
      exact Except.ok.inj (hanchors.1.symm.trans hanchors'.1)
    | cons m mid =>
      cases hmid
      exact absurd hanchors' (hbefore entry' (by simp) anchor')

theorem FirstAnchor.anchored {cert anchor : Certificate} {below : Nat}
    (h : FirstAnchor verifier rules now below cert anchors anchor) :
    Anchored verifier anchors rules now below cert := by
  obtain ⟨before, entry, after, rfl, hanchors, -⟩ := h
  exact ⟨entry, by simp, anchor, hanchors⟩

theorem FirstAnchored.firstAnchor {certs : List Certificate} {k : Nat}
    {found : Certificate × String} {cert : Certificate}
    (h : FirstAnchored verifier anchors rules now 0 certs k found) (hcert : certs[k]? = some cert) :
    FirstAnchor verifier rules now k cert anchors found.1 := by
  obtain ⟨⟨cert', hcert', hfound⟩, -⟩ := h
  rw [hcert] at hcert'
  cases hcert'
  rw [Nat.zero_add] at hfound
  exact firstAnchor_of_findAnchorFrom hfound

/-- Of the calls of an anchor search the one for the anchor it finds is accepted, and no other. -/
theorem accepted_anchorCalls_iff (outlived : Bool) {cert : Certificate} {below index : Nat}
    {entries : List TrustAnchor} {call : VerifyCall} :
    (call ∈ anchorCalls verifier rules now cert below index entries
        ∧ verifier.answers call = .ok ())
      ↔ ∃ anchor source, findAnchorFrom verifier rules now cert below index outlived entries
          = .ok (anchor, source) ∧ call = signatureCall cert anchor := by
  induction entries generalizing outlived with
  | nil =>
    refine iff_of_false (fun h => by cases h.1) ?_
    rintro ⟨anchor, source, h, -⟩
    unfold findAnchorFrom at h
    split at h <;> cases h
  | cons entry rest ih =>
    rcases anchorCalls_cons verifier rules now cert below index outlived entry rest with
      ⟨hcalls, outlived', hfind⟩ | ⟨anchor, hcalls, hfind⟩
    · rw [hcalls, hfind]
      exact ih outlived'
    · rw [hcalls, hfind]
      by_cases hsigned : verifySignature verifier cert anchor index = .ok ()
      · -- the last call of the search, and the one that is accepted
        rw [if_pos hsigned, if_pos hsigned, List.mem_singleton]
        constructor
        · rintro ⟨rfl, -⟩
          exact ⟨anchor, entry.source, rfl, rfl⟩
        · rintro ⟨_, _, heq, rfl⟩
          cases heq
          exact ⟨rfl, (verifySignature_ok_iff_answers ..).mp hsigned⟩
      · rw [if_neg hsigned, if_neg hsigned, ← ih, List.mem_cons]
        refine and_congr_left fun hok => or_iff_right ?_
        rintro rfl
        exact hsigned ((verifySignature_ok_iff_answers ..).mpr hok)

/-- The calls that are accepted. Induction on the chain: the walk stops at the first certificate an
anchor issued. -/
theorem accepted_walkCalls_iff {index k : Nat} {certs : List Certificate}
    {found : Certificate × String}
    (hfirst : FirstAnchored verifier anchors rules now index certs k found)
    (hlinked : Linked verifier rules index k certs) (cert : Certificate) (call : VerifyCall) :
    ((cert, call) ∈ walkCalls verifier anchors rules now index certs
        ∧ verifier.answers call = .ok ())
      ↔ (∃ i < k, ∃ issuer, certs[i]? = some cert ∧ certs[i + 1]? = some issuer
          ∧ call = signatureCall cert issuer)
        ∨ (certs[k]? = some cert ∧ call = signatureCall cert found.1) := by
  induction certs generalizing index k with
  | nil =>
    obtain ⟨⟨c, hc, -⟩, -⟩ := hfirst
    cases hc
  | cons c above ih =>
    -- what is asked for the lowest certificate while looking for its anchor
    have hsearch : ((cert, call)
          ∈ (anchorCalls verifier rules now c index index anchors).map (c, ·)
        ∧ verifier.answers call = .ok ())
        ↔ c = cert ∧ ∃ anchor source, findAnchor verifier anchors rules now c index index
            = .ok (anchor, source) ∧ call = signatureCall c anchor := by
      rw [findAnchor, ← accepted_anchorCalls_iff false, List.mem_map]
      constructor
      · rintro ⟨⟨call', hmem, heq⟩, hok⟩
        cases heq
        exact ⟨rfl, hmem, hok⟩
      · rintro ⟨rfl, hmem, hok⟩
        exact ⟨⟨call, hmem, rfl⟩, hok⟩
    unfold walkCalls
    rw [List.mem_append, or_and_right, hsearch]
    cases k with
    -- the anchor is found for the lowest certificate: one accepted call, and the walk is over
    | zero =>
      have hfound := (firstAnchored_zero_iff ..).mp hfirst
      obtain ⟨anchor, source⟩ := found
      rw [hfound]
      constructor
      · rintro (⟨rfl, anchor', source', heq, rfl⟩ | ⟨hmem, -⟩)
        · cases heq
          exact .inr ⟨rfl, rfl⟩
        · cases hmem
      · rintro (⟨i, hi, -⟩ | ⟨hcert, rfl⟩)
        · exact absurd hi (Nat.not_lt_zero i)
        · cases hcert
          exact .inl ⟨rfl, anchor, source, rfl, rfl⟩
    | succ k =>
      -- none is: the search has had no call accepted, and the link to the next certificate is
      -- checked
      obtain ⟨hnone, hfirst⟩ := (firstAnchored_succ_iff ..).mp hfirst
      cases hanchor : findAnchor verifier anchors rules now c index index with
      | ok other => exact absurd ⟨other, hanchor⟩ hnone
      | error e =>
        cases above with
        | nil =>
          obtain ⟨⟨c', hc', -⟩, -⟩ := hfirst
          cases hc'
        | cons next rest =>
          obtain ⟨hlink, hlinked⟩ := (linked_succ_iff ..).mp hlinked
          have hchecked : checkLink verifier rules c next index = .ok () :=
            (checkLink_ok_iff ..).mpr hlink
          -- the names fit and the issuer may issue, or the link would not hold, so a signature is
          -- checked
          have hcalls : linkCalls c next index = [signatureCall c next] := by
            unfold linkCalls
            rw [if_neg (not_not.mpr hlink.1.named),
              if_neg (not_not.mpr ((checkIssuer_ok_iff ..).mpr hlink.1.mayIssue))]
          have hsigned : verifier.answers (signatureCall c next) = .ok () := hlink.1.signed
          simp only
          rw [hcalls, if_pos hchecked, List.map_singleton, List.singleton_append, List.mem_cons,
            or_and_right, ih hfirst hlinked]
          -- the lowest link is the first pair, and those above are one further up than in the chain
          -- above
          constructor
          · rintro (⟨-, _, _, heq, -⟩ | ⟨heq, -⟩ | ⟨i, hi, issuer, hpair⟩ | hlast)
            · cases heq
            · cases heq
              exact .inl ⟨0, Nat.succ_pos k, next, rfl, rfl, rfl⟩
            · exact .inl ⟨i + 1, Nat.succ_lt_succ hi, issuer, hpair⟩
            · exact .inr hlast
          · rintro (⟨i, hi, issuer, hcert, hissuer, hcall⟩ | hlast)
            · cases i with
              | zero =>
                cases hcert
                cases hissuer
                exact .inr (.inl ⟨by rw [hcall], by rw [hcall]; exact hsigned⟩)
              | succ i =>
                exact .inr (.inr (.inl ⟨i, Nat.lt_of_succ_lt_succ hi, issuer, hcert, hissuer,
                  hcall⟩))
            · exact .inr (.inr (.inr hlast))

end Accepted

/-! ## When they agree

With the calls that are relied on known, what was declared and what was checked are two lists of
algorithms, position by position. -/

/-- Every certificate of the chain up to the first that a configured anchor stands behind declares
the algorithm of the leaf's curve, and that first one the algorithm of the curve of the first
configured anchor that stands behind it. -/
def DeclaresSuites (verifier : VerifyWith) (chain : List (List UInt8))
    (anchors : List TrustAnchor) (policy : Policy) (now : Int) : Prop :=
  ∀ certs leaf i cert, Parsed chain certs → certs.head? = some leaf → certs[i]? = some cert →
    (∀ j < i, ∀ c, certs[j]? = some c → ¬ Anchored verifier anchors policy.rules now j c) →
      (¬ Anchored verifier anchors policy.rules now i cert →
          cert.declared = .ok leaf.curve.suite.oid)
        ∧ ∀ anchor, FirstAnchor verifier policy.rules now i cert anchors anchor →
          cert.declared = .ok anchor.curve.suite.oid

/-- **The declared algorithm and the checked one.** What a validation asks its backend are the calls
listed, and nothing else. Those that are accepted, on which the path rests, are made with the suite
that the certificate they are about declares, exactly when the certificates declare the algorithm
of the chain's curve as far as no anchor stands behind one, and the first that an anchor stands
behind that of its anchor's curve. -/
theorem declared_checked_iff {verifier : VerifyWith} {chain : List (List UInt8)}
    {anchors : List TrustAnchor} {policy : Policy} {now : Int} {v : Validated}
    (h : validate verifier chain anchors policy now = .ok v) :
    (∀ verifier' : VerifyWith,
        (∀ x ∈ walkCalls verifier anchors policy.rules now 0 (v.leaf :: v.intermediates),
          verifier'.answers x.2 = verifier.answers x.2) →
        validate verifier' chain anchors policy now = .ok v)
      ∧ ((∀ cert call,
          (cert, call) ∈ walkCalls verifier anchors policy.rules now 0 (v.leaf :: v.intermediates) →
          verifier.answers call = .ok () → cert.declared = .ok call.suite.oid)
        ↔ DeclaresSuites verifier chain anchors policy now) := by
  refine ⟨fun verifier' hanswers => validate_of_answers h hanswers, ?_⟩
  -- the walk has found the first anchored certificate, and the calls it relies on are known
  obtain ⟨hadmissible, hwalk⟩ := (validate_ok_iff ..).mp h
  obtain ⟨k, hfirst, hlinked⟩ := (walk_ok_iff ..).mp hwalk
  obtain ⟨last, hlast, hanchored⟩ := hfirst.anchored
  have hunder := hfirst.firstAnchor hlast
  have haccepted := accepted_walkCalls_iff hfirst hlinked
  constructor
  -- from the calls to the certificates: each up to the anchored one has a call
  · intro hchecked certs leaf i cert hparsed hleaf hcert hnone
    obtain rfl := hadmissible.parsed.unique hparsed
    cases hleaf
    have hle : i ≤ k := by
      by_contra hlt
      exact hnone k (by omega) last hlast hanchored
    refine ⟨fun hnot => ?_, fun anchor hanchor => ?_⟩
    · -- no anchor issued it, so its issuer is the next certificate, on the leaf's curve
      have hlt : i < k := by
        refine Nat.lt_of_le_of_ne hle ?_
        rintro rfl
        rw [hlast] at hcert
        cases hcert
        exact hnot hanchored
      have hlength := hfirst.lt_length
      obtain ⟨issuer, hissuer⟩ : ∃ issuer, (v.leaf :: v.intermediates)[i + 1]? = some issuer :=
        ⟨_, List.getElem?_eq_getElem (by omega)⟩
      obtain ⟨hcall, hok⟩ := (haccepted cert (signatureCall cert issuer)).mpr
        (.inl ⟨i, hlt, issuer, hcert, hissuer, rfl⟩)
      have hdeclared := hchecked _ _ hcall hok
      rwa [signatureCall, hadmissible.curve _ (List.mem_of_getElem? hissuer)] at hdeclared
    -- an anchor issued it, so it is the last one that is looked at
    · have heq : i = k := by
        refine Nat.le_antisymm hle ?_
        by_contra hlt
        exact hfirst.not_anchored (by omega) hcert hanchor.anchored
      subst heq
      rw [hlast] at hcert
      cases hcert
      obtain rfl := hanchor.unique hunder
      obtain ⟨hcall, hok⟩ := (haccepted last (signatureCall last v.anchor)).mpr
        (.inr ⟨hlast, rfl⟩)
      exact hchecked _ _ hcall hok
  -- and back: a call that is relied on is for one of these certificates
  · intro hsuites cert call hcall hok
    rcases (haccepted cert call).mp ⟨hcall, hok⟩ with
      ⟨i, hi, issuer, hcert, hissuer, rfl⟩ | ⟨hcert, rfl⟩
    · have hdeclared := (hsuites _ _ i cert hadmissible.parsed hadmissible.first hcert
        fun j hj c hc => hfirst.not_anchored (by omega) hc).1 (hfirst.not_anchored hi hcert)
      rwa [← hadmissible.curve issuer (List.mem_of_getElem? hissuer)] at hdeclared
    · exact (hsuites _ _ k cert hadmissible.parsed hadmissible.first hcert
        fun j hj c hc => hfirst.not_anchored hj hc).2 _ (hfirst.firstAnchor hcert)

/-- A backend that accepts every signature of ECDSA with SHA-256, and no other. -/
def Sample.acceptSha256 : VerifyWith := fun suite _ _ _ =>
  if suite = .ecdsaSha256 then .ok () else .error .badSignature

/-- The sample chain, all of it on one curve and signed with its algorithm: each certificate
declares what it is checked with, and a backend that knows no other suite is enough. -/
theorem declared_checked_iff_root :
    ∃ v, validate Sample.acceptAll [Sample.leaf, Sample.subCa2, Sample.subCa1]
        [⟨Sample.root, "roots"⟩] Sample.policy Sample.now = .ok v
      ∧ validate Sample.acceptSha256 [Sample.leaf, Sample.subCa2, Sample.subCa1]
        [⟨Sample.root, "roots"⟩] Sample.policy Sample.now = .ok v
      ∧ DeclaresSuites Sample.acceptAll [Sample.leaf, Sample.subCa2, Sample.subCa1]
          [⟨Sample.root, "roots"⟩] Sample.policy Sample.now := by
  have hok : ((validate Sample.acceptAll [Sample.leaf, Sample.subCa2, Sample.subCa1]
      [⟨Sample.root, "roots"⟩] Sample.policy Sample.now).toOption.any fun v =>
        (walkCalls Sample.acceptAll [⟨Sample.root, "roots"⟩] Sample.policy.rules Sample.now 0
          (v.leaf :: v.intermediates)).all fun x =>
            decide (Sample.acceptSha256.answers x.2 = Sample.acceptAll.answers x.2)
              && decide (x.1.declared = .ok x.2.suite.oid)) = true := by
    decide +kernel
  obtain ⟨v, hv, hall⟩ := (Option.any_eq_true _ _).mp hok
  have h := toOption_eq_some.mp hv
  obtain ⟨hdepends, hdeclared⟩ := declared_checked_iff h
  refine ⟨v, h, hdepends _ fun x hx => ?_, hdeclared.mp fun cert call hcall _ => ?_⟩
  · exact of_decide_eq_true (Bool.and_eq_true_iff.mp (List.all_eq_true.mp hall x hx)).1
  · exact of_decide_eq_true (Bool.and_eq_true_iff.mp (List.all_eq_true.mp hall _ hcall)).2

/-- A leaf on P-256, under the root, that declares `ecdsa-with-SHA512`. -/
def Sample.sha512Leaf : List UInt8 :=
  tlv Tag.sequence
    (tlv Tag.sequence
        (tlv (Tag.context 0) (tlv Tag.integer [0x02]) ++ tlv Tag.integer [0x01] ++ algorithm
          ++ name 0x41 ++ validity ++ name 0x4C ++ spki ++ constraints false)
      ++ algorithm
      ++ tlv Tag.bitString
        (0x00 :: tlv Tag.sequence (tlv Tag.integer [0x01] ++ tlv Tag.integer [0x01])))
where
  algorithm : List UInt8 := tlv Tag.sequence (tlv Tag.oid Oid.ecdsaWithSha512)

/-- Its signature is checked with SHA-256, and the chain is accepted. -/
theorem not_declared_checked_sha512Leaf :
    ∃ v cert call, validate Sample.acceptAll [Sample.sha512Leaf] [⟨Sample.root, "roots"⟩]
        Sample.policy Sample.now = .ok v
      ∧ (cert, call) ∈ walkCalls Sample.acceptAll [⟨Sample.root, "roots"⟩] Sample.policy.rules
        Sample.now 0 (v.leaf :: v.intermediates)
      ∧ Sample.acceptAll.answers call = .ok ()
      ∧ call.suite = .ecdsaSha256 ∧ cert.declared = .ok Oid.ecdsaWithSha512 := by
  have hok : ((validate Sample.acceptAll [Sample.sha512Leaf] [⟨Sample.root, "roots"⟩]
      Sample.policy Sample.now).toOption.any fun v =>
        (walkCalls Sample.acceptAll [⟨Sample.root, "roots"⟩] Sample.policy.rules Sample.now 0
          (v.leaf :: v.intermediates)).any fun x =>
            decide (x.2.suite = .ecdsaSha256)
              && decide (x.1.declared = .ok Oid.ecdsaWithSha512)) = true := by
    decide +kernel
  obtain ⟨v, hv, hany⟩ := (Option.any_eq_true _ _).mp hok
  obtain ⟨⟨cert, call⟩, hmem, hdiffer⟩ := List.any_eq_true.mp hany
  obtain ⟨hsuite, hdeclared⟩ := Bool.and_eq_true_iff.mp hdiffer
  exact ⟨v, cert, call, toOption_eq_some.mp hv, hmem, rfl, of_decide_eq_true hsuite,
    of_decide_eq_true hdeclared⟩

end Pki

end Iso15118.Pnc
