import Iso15118.Pnc.Pki.Path

/-!
# Which anchors, and which chain

What the set of anchors decides beyond one validation: a validator may add roots to it without
refusing a chain it took before, and the holder of several chains picks one with the names the
validator advertises.

* **`validate_mono`** — more anchors, in any order, validate whatever fewer did;
* **`authorities`**, **`selectChain`** — the two halves of the choice, one on either side;
* **`selectChain_of_validate`** — if a candidate validates, the holder selects one no later.
-/

namespace Iso15118.Pnc.Pki

open Iso15118.Lib

/-! ## A rollover of the anchors

An anchor that is still there stands behind what it stood behind before. The walk may end
earlier, at a new anchor; the leaf is the same. -/

/-- The key the leaf's signatures are checked against. -/
def Validated.publicKey (v : Validated) : List UInt8 := v.leaf.publicKey

section Rollover

variable {verifier : VerifyWith} {anchors anchors' : List TrustAnchor} {rules : Rules} {now : Int}

/-- A path asks for one anchor among those configured, so more of them keep it. -/
theorem HasPath.mono {certs : List Certificate} (hsub : ∀ entry ∈ anchors, entry ∈ anchors')
    (h : HasPath verifier anchors rules now certs) : HasPath verifier anchors' rules now certs := by
  obtain ⟨k, cert, hcert, ⟨entry, hentry, hanchor⟩, hlinked⟩ := h
  exact ⟨k, cert, hcert, ⟨entry, hsub entry hentry, hanchor⟩, hlinked⟩

/-- **Trust is monotone in the anchors.** What validates under some anchors validates under any
list that holds them all, whatever else it holds and wherever, with the same leaf and key. -/
theorem validate_mono {chain : List (List UInt8)} {policy : Policy} {v : Validated}
    (hsub : ∀ entry ∈ anchors, entry ∈ anchors')
    (h : validate verifier chain anchors policy now = .ok v) :
    ∃ v', validate verifier chain anchors' policy now = .ok v'
      ∧ v'.leaf = v.leaf ∧ v'.publicKey = v.publicKey := by
  have hpath : ∃ certs, Admissible chain policy now certs v.leaf
      ∧ HasPath verifier anchors policy.rules now certs :=
    (validate_exact ..).mp ⟨v, h, rfl⟩
  obtain ⟨certs, hadmissible, hpath⟩ := hpath
  obtain ⟨v', hok, hleaf⟩ := (validate_exact verifier chain anchors' policy now v.leaf).mpr
    ⟨certs, hadmissible, hpath.mono hsub⟩
  have hkey : v'.publicKey = v.publicKey := by
    unfold Validated.publicKey
    rw [hleaf]
  exact ⟨v', hok, hleaf, hkey⟩

end Rollover

/-- The sample chain, validated under its root, still validates once a root that does not parse
and a certificate that is no CA are put in front of it. -/
theorem validate_mono_rollover :
    ∃ v v', validate Sample.acceptAll [Sample.leaf, Sample.subCa2, Sample.subCa1]
        [⟨Sample.root, "roots"⟩] Sample.policy Sample.now = .ok v
      ∧ validate Sample.acceptAll [Sample.leaf, Sample.subCa2, Sample.subCa1]
        [⟨[0x30], "malformed"⟩, ⟨Sample.leaf, "no CA"⟩, ⟨Sample.root, "roots"⟩] Sample.policy
          Sample.now = .ok v'
      ∧ v'.leaf = v.leaf ∧ v'.publicKey = v.publicKey := by
  obtain ⟨v, h⟩ := Sample.validates_root
  have hsub : ∀ entry ∈ [(⟨Sample.root, "roots"⟩ : TrustAnchor)],
      entry ∈ [(⟨[0x30], "malformed"⟩ : TrustAnchor), ⟨Sample.leaf, "no CA"⟩,
        ⟨Sample.root, "roots"⟩] := by
    intro entry hentry
    exact List.mem_cons_of_mem _ (List.mem_cons_of_mem _ hentry)
  obtain ⟨v', hok', hsame⟩ := validate_mono hsub h
  exact ⟨v, v', h, hok', hsame⟩

/-! ## Choosing among several chains

The validator advertises the names of its anchors, and the holder looks for one of them. The
anchor that a chain validates under is among them, so the chain is found. -/

/-- The DER subject name of every anchor that parses, in order. -/
def authorities (anchors : List TrustAnchor) : List (List UInt8) :=
  anchors.filterMap fun a => (Certificate.parse a.der).toOption.map fun c => c.subject.encoded

/-- Reads on through a chain, `reaches` saying whether a certificate before was issued by a
listed name or is one. A certificate that does not parse rules the chain out. -/
def reachesFrom (authorities : List (List UInt8)) (reaches : Bool) : List (List UInt8) → Bool
  | [] => reaches
  | der :: rest =>
      match Certificate.parse der with
      | .error _ => false
      | .ok cert =>
          reachesFrom authorities
            (reaches || (authorities.contains cert.issuer.encoded
              || authorities.contains cert.subject.encoded)) rest

/-- The position of the first candidate that reaches one of the authorities a peer listed. -/
def selectChain (candidates : List (List (List UInt8))) (authorities : List (List UInt8)) :
    Option Nat :=
  candidates.findIdx? (reachesFrom authorities false)

/-- The certificate was issued by a listed name, or is one. -/
def Certificate.Names (cert : Certificate) (authorities : List (List UInt8)) : Prop :=
  cert.issuer.encoded ∈ authorities ∨ cert.subject.encoded ∈ authorities

/-- What the loop decides, from any point of a chain. Induction on the certificates left. -/
theorem reachesFrom_iff (authorities : List (List UInt8)) (reaches : Bool)
    (chain : List (List UInt8)) :
    reachesFrom authorities reaches chain = true
      ↔ ∃ certs, Parsed chain certs
        ∧ (reaches = true ∨ ∃ cert ∈ certs, cert.Names authorities) := by
  -- induction on the chain: what has been reached so far is carried along
  induction chain generalizing reaches with
  | nil =>
    unfold reachesFrom Parsed
    simp
  | cons der rest ih =>
    unfold reachesFrom
    cases hparse : Certificate.parse der with
    -- one certificate that does not parse and the chain is passed over
    | error e =>
      constructor
      · intro h
        cases h
      · rintro ⟨certs, hparsed, -⟩
        cases hparsed with
        | cons hok _ =>
          rw [hparse] at hok
          cases hok
    | ok cert =>
      have hnames : (reaches || (authorities.contains cert.issuer.encoded
          || authorities.contains cert.subject.encoded)) = true
            ↔ reaches = true ∨ cert.Names authorities := by
        unfold Certificate.Names
        simp
      simp only
      rw [ih]
      constructor
      · rintro ⟨certs, hparsed, hreaches⟩
        refine ⟨cert :: certs, .cons hparse hparsed, ?_⟩
        rw [hnames] at hreaches
        rw [List.exists_mem_cons_iff, ← or_assoc]
        exact hreaches
      · rintro ⟨certs, hparsed, hreaches⟩
        cases hparsed with
        | @cons _ cert' _ certs hok hrest =>
          rw [hparse] at hok
          cases hok
          rw [List.exists_mem_cons_iff, ← or_assoc, ← hnames] at hreaches
          exact ⟨certs, hrest, hreaches⟩

/-- A chain that reaches an authority: every certificate parses, and one of them names it. -/
def Reaches (authorities : List (List UInt8)) (chain : List (List UInt8)) : Prop :=
  ∃ certs, Parsed chain certs ∧ ∃ cert ∈ certs, cert.Names authorities

theorem reachesFrom_start_iff (authorities : List (List UInt8)) (chain : List (List UInt8)) :
    reachesFrom authorities false chain = true ↔ Reaches authorities chain := by
  rw [reachesFrom_iff]
  unfold Reaches
  simp

/-- An anchor that stands behind a certificate is advertised under the name its issuer has. -/
theorem Anchors.mem_authorities {verifier : VerifyWith} {anchors : List TrustAnchor}
    {rules : Rules} {now : Int} {below : Nat} {cert anchor : Certificate} {entry : TrustAnchor}
    (hentry : entry ∈ anchors) (h : Anchors verifier rules now below cert entry anchor) :
    cert.issuer.encoded ∈ authorities anchors := by
  obtain ⟨hparse, -, hcertifies, -⟩ := h
  unfold authorities
  rw [List.mem_filterMap]
  refine ⟨entry, hentry, ?_⟩
  rw [hparse, ← hcertifies.named]
  rfl

/-- A chain that validates reaches one of the names its validator advertises: that of the anchor
it ended at. -/
theorem reaches_of_validate {verifier : VerifyWith} {chain : List (List UInt8)}
    {anchors : List TrustAnchor} {policy : Policy} {now : Int} {v : Validated}
    (h : validate verifier chain anchors policy now = .ok v) :
    Reaches (authorities anchors) chain := by
  obtain ⟨certs, hadmissible, hpath⟩ := (validate_exact ..).mp ⟨v, h, rfl⟩
  obtain ⟨k, cert, hcert, ⟨entry, hentry, anchor, hanchor⟩, -⟩ := hpath
  exact ⟨certs, hadmissible.parsed, cert, List.mem_of_getElem? hcert,
    .inl (hanchor.mem_authorities hentry)⟩

/-- **Selection never misses a usable chain.** Where a candidate validates, the one selected by
the validator's own names comes no later, and reaches one of them. -/
theorem selectChain_of_validate {verifier : VerifyWith} {candidates : List (List (List UInt8))}
    {anchors : List TrustAnchor} {policy : Policy} {now : Int} {i : Nat}
    {chain : List (List UInt8)} {v : Validated} (hcandidate : candidates[i]? = some chain)
    (h : validate verifier chain anchors policy now = .ok v) :
    ∃ j chosen, selectChain candidates (authorities anchors) = some j ∧ j ≤ i
      ∧ candidates[j]? = some chosen
      ∧ ∃ certs, Parsed chosen certs ∧ ∃ cert ∈ certs, cert.Names (authorities anchors) := by
  have hreaches : reachesFrom (authorities anchors) false chain = true :=
    (reachesFrom_start_iff ..).mpr (reaches_of_validate h)
  cases hselect : selectChain candidates (authorities anchors) with
  | none =>
    have hnone := List.findIdx?_eq_none_iff.mp hselect chain (List.mem_of_getElem? hcandidate)
    rw [hreaches] at hnone
    cases hnone
  | some j =>
    obtain ⟨hj, hfound, hbefore⟩ := List.findIdx?_eq_some_iff_getElem.mp hselect
    refine ⟨j, candidates[j], rfl, ?_, List.getElem?_eq_getElem hj, ?_⟩
    · -- a candidate that reaches an authority is not passed over
      by_contra hlt
      obtain ⟨hi, hget⟩ := List.getElem?_eq_some_iff.mp hcandidate
      have hpassed := hbefore i (by omega)
      rw [hget] at hpassed
      exact hpassed hreaches
    · exact (reachesFrom_start_iff ..).mp hfound

/-- Of a chain that does not parse and the sample chain, the second is selected. -/
theorem selectChain_of_validate_second :
    ∃ v j chosen, validate Sample.acceptAll [Sample.leaf, Sample.subCa2, Sample.subCa1]
        [⟨Sample.root, "roots"⟩] Sample.policy Sample.now = .ok v
      ∧ selectChain [[[0x30]], [Sample.leaf, Sample.subCa2, Sample.subCa1]]
        (authorities [⟨Sample.root, "roots"⟩]) = some j ∧ j ≤ 1
      ∧ [[[0x30]], [Sample.leaf, Sample.subCa2, Sample.subCa1]][j]? = some chosen
      ∧ ∃ certs, Parsed chosen certs
        ∧ ∃ cert ∈ certs, cert.Names (authorities [⟨Sample.root, "roots"⟩]) := by
  obtain ⟨v, h⟩ := Sample.validates_root
  have hcandidate : [[[0x30]], [Sample.leaf, Sample.subCa2, Sample.subCa1]][1]?
      = some [Sample.leaf, Sample.subCa2, Sample.subCa1] := rfl
  obtain ⟨j, chosen, hchosen⟩ := selectChain_of_validate hcandidate h
  exact ⟨v, j, chosen, h, hchosen⟩

end Iso15118.Pnc.Pki
