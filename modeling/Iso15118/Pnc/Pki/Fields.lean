import Iso15118.Pnc.Pki.Cert
import Iso15118.Pnc.Pki.Tlv

/-!
# The bytes of a certificate

`Certificate.parse` keeps of a certificate what the profiles constrain. This module says what it
read to get there: the shape of every value it went through, as a grammar of the bytes, and the
values it dropped on the way.

* **`certificateBytes`** — the grammar, with the places the parser leaves without looking at what
  is left as parameters;
* **`Certificate.fields`** — a certificate taken apart by tags and lengths alone;
* **`reading_of_parse`** — what a successful parse says of both.
-/

namespace Iso15118.Pnc.Pki

open Iso15118.Lib

/-! ## The grammar

Every constructed value as a shape over its parts. The parameters are the places where the parser
stops without asking whether it is at the end. -/

def algorithmBytes : Shape := Wraps Tag.sequence (Spelled [Primitive Tag.oid])

def attributeBytes : Shape :=
  Wraps Tag.sequence (Spelled [Primitive Tag.oid, Tagged fun _ => True])

def nameBytes : Shape := Tagged (Each (Wraps Tag.set (Each attributeBytes)))

def validityBytes : Shape :=
  Wraps Tag.sequence (Spelled [Tagged fun _ => True, Tagged fun _ => True])

def keyInfoBytes : Shape :=
  Wraps Tag.sequence (Spelled
    [Wraps Tag.sequence (Spelled [Primitive Tag.oid, Primitive Tag.oid]), Primitive Tag.bitString])

/-- What an extension's value holds, where the parser looks into it. -/
def extensionValue (id : List UInt8) : Shape := fun value =>
  (id = Oid.keyUsage → Primitive Tag.bitString value)
    ∧ (id = Oid.basicConstraints →
      Wraps Tag.sequence (Spelled [Maybe (Primitive Tag.boolean), Maybe (Primitive Tag.integer)])
        value)

def extensionBytes : Shape :=
  Wraps Tag.sequence fun contents => ∃ id,
    Spelled [Tlv Tag.oid id, Maybe (Primitive Tag.boolean),
      Wraps Tag.octetString (extensionValue id)] contents

def signatureBytes : Shape :=
  Wraps Tag.bitString fun contents => ∃ value, contents = 0x00 :: value
    ∧ Wraps Tag.sequence (Spelled [Primitive Tag.integer, Primitive Tag.integer]) value

/-- Exactly these bytes. -/
def Exactly (bytes : List UInt8) : Shape := fun b => b = bytes

/-- What a certificate may carry beside its grammar: another tag on `tbsCertificate`, and bytes
behind the version, behind the extension list and behind the last field. -/
structure Slack where
  tbsTag : UInt8
  afterVersion : List UInt8
  afterList : List UInt8
  afterTbs : List UInt8
  deriving DecidableEq

/-- Nothing but the grammar. -/
def Slack.none : Slack := ⟨Tag.sequence, [], [], []⟩

def versionBytes (slack : Slack) : Shape :=
  Wraps (Tag.context 0) (Spelled [Primitive Tag.integer, Exactly slack.afterVersion])

def extensionsBytes (slack : Slack) : Shape :=
  Wraps (Tag.context 3)
    (Spelled [Wraps Tag.sequence (Each extensionBytes), Exactly slack.afterList])

def tbsBytes (slack : Slack) : Shape :=
  Wraps slack.tbsTag (Spelled [versionBytes slack, Primitive Tag.integer, algorithmBytes, nameBytes,
    validityBytes, nameBytes, keyInfoBytes, Maybe (Primitive 0x81), Maybe (Primitive 0x82),
    Maybe (extensionsBytes slack), Exactly slack.afterTbs])

/-- The bytes of a certificate with this slack in it. -/
def certificateBytes (slack : Slack) : Shape :=
  Wraps Tag.sequence (Spelled [tbsBytes slack, algorithmBytes, signatureBytes])

/-! ## Taking a certificate apart

A second reader, which goes by tags and lengths only and keeps what the first one drops. -/

/-- Passes over `n` values. -/
def Der.skip : Nat → Der → Except DerError Der
  | 0, d => .ok d
  | n + 1, d => do
      let (_, _, d) ← d.any
      d.skip n

/-- What the parser reads and does not keep. -/
structure Fields where
  tbsTag : UInt8
  /-- The contents of the version's wrapper. -/
  version : List UInt8
  /-- The contents of the extensions' wrapper. -/
  extensions : Option (List UInt8)
  /-- What follows the last field of `tbsCertificate`. -/
  afterTbs : List UInt8
  /-- The algorithm `signatureAlgorithm` names. -/
  declared : List UInt8
  deriving DecidableEq

/-- The algorithm an `AlgorithmIdentifier` names. -/
def declaredAlgorithm (d : Der) : Except DerError (List UInt8) := do
  let (alg, _) ← d.nested Tag.sequence
  let (id, _) ← alg.expect Tag.oid
  return id

/-- Takes a certificate apart by its tags and lengths. -/
def Certificate.fields (der : List UInt8) : Except DerError Fields := do
  let (cert, _) ← (Der.mk der).nested Tag.sequence
  let (tbsTag, tbs, cert) ← cert.any
  let (version, d) ← (Der.mk tbs).optional (Tag.context 0)
  -- serialNumber, signature, issuer, validity, subject and subjectPublicKeyInfo
  let d ← d.skip 6
  let (_, d) ← d.optional 0x81
  let (_, d) ← d.optional 0x82
  let (extensions, d) ← d.optional (Tag.context 3)
  let declared ← declaredAlgorithm cert
  return ⟨tbsTag, version.getD [], extensions, d.rest, declared⟩

/-- The slack in a certificate: what is behind the one value its wrappers are read for. -/
def Fields.slack (f : Fields) : Except DerError Slack := do
  let afterVersion ← (Der.mk f.version).skip 1
  let afterList ← (match f.extensions with
    | none => .ok ⟨[]⟩
    | some contents => (Der.mk contents).skip 1)
  return ⟨f.tbsTag, afterVersion.rest, afterList.rest, f.afterTbs⟩

/-! ## What each reader read

One lemma for each reader of the source: the bytes it took have the shape of its value. Lists by
induction on the bytes that are left. -/

/-- The reader found one value of this shape, and stopped behind it. -/
def Read (shape : Shape) (d d' : Der) : Prop := ∃ bytes, shape bytes ∧ d.rest = bytes ++ d'.rest

theorem lift_eq_ok {α : Type} {r : Except DerError α} {a : α} :
    (liftM r : Except CertError α) = .ok a ↔ r = .ok a := mapError_eq_ok

theorem any_of_read {inner : Shape} {d d' : Der} (h : Read (Tagged inner) d d') :
    ∃ tag contents, d.any = .ok (tag, contents, d') := by
  obtain ⟨bytes, ⟨tag, contents, htlv, -⟩, hrest⟩ := h
  exact ⟨tag, contents, Der.any_eq_ok.mpr ⟨bytes, htlv, hrest⟩⟩

theorem Read.tagged {tag : UInt8} {inner : Shape} {d d' : Der} (h : Read (Wraps tag inner) d d') :
    Read (Tagged inner) d d' := by
  obtain ⟨bytes, hbytes, hrest⟩ := h
  exact ⟨bytes, ⟨tag, hbytes⟩, hrest⟩

/-- A value under its tag, read to its end. -/
theorem read_of_nested {tag : UInt8} {inner : Shape} {d d' item : Der}
    (h : d.nested tag = .ok (item, d')) (hinner : inner item.rest) :
    Read (Wraps tag inner) d d' := by
  obtain ⟨bytes, htlv, hrest⟩ := Der.nested_eq_ok.mp h
  exact ⟨bytes, ⟨item.rest, htlv, hinner⟩, hrest⟩

theorem read_of_expect {tag : UInt8} {inner : Shape} {d d' : Der} {contents : List UInt8}
    (h : d.expect tag = .ok (contents, d')) (hinner : inner contents) :
    Read (Wraps tag inner) d d' := by
  obtain ⟨bytes, htlv, hrest⟩ := Der.expect_eq_ok.mp h
  exact ⟨bytes, ⟨contents, htlv, hinner⟩, hrest⟩

theorem read_of_any {d d' : Der} {tag : UInt8} {contents : List UInt8} {inner : Shape}
    (h : d.any = .ok (tag, contents, d')) (hinner : inner contents) :
    Read (Tagged inner) d d' := by
  obtain ⟨bytes, htlv, hrest⟩ := Der.any_eq_ok.mp h
  exact ⟨bytes, ⟨tag, contents, htlv, hinner⟩, hrest⟩

/-- A read that leaves nothing has read it all. -/
theorem Read.whole {shape : Shape} {bytes : List UInt8} {d' : Der} (h : Read shape ⟨bytes⟩ d')
    (hend : d'.rest = []) : shape bytes := by
  obtain ⟨raw, hraw, hrest⟩ := h
  rw [hend, List.append_nil] at hrest
  have hwhole : bytes = raw := hrest
  rw [hwhole]
  exact hraw

/-- Reads in a row. -/
theorem Read.spelled {shape : Shape} {shapes : List Shape} {d d' : Der} (h : Read shape d d')
    (hrest : Spelled shapes d'.rest) : Spelled (shape :: shapes) d.rest := by
  obtain ⟨bytes, hbytes, hsplit⟩ := h
  exact ⟨bytes, d'.rest, hsplit, hbytes, hrest⟩

theorem eachNested_nil {σ : Type} {tag : UInt8} {body : σ → Der → Except CertError σ} {s : σ}
    {d : Der} (h : d.rest = []) : eachNested tag body s d = .ok s := by
  have hempty : d.isEmpty = true := by
    unfold Der.isEmpty
    rw [h]
    rfl
  rw [eachNested, if_pos hempty]

theorem eachNested_cons {σ : Type} {tag : UInt8} {body : σ → Der → Except CertError σ} {s : σ}
    {d item d' : Der} (h : d.nested tag = .ok (item, d')) :
    eachNested tag body s d = body s item >>= fun s₁ => eachNested tag body s₁ d' := by
  have hshorter := Der.nested_shorter h
  have hempty : ¬ d.isEmpty = true := by
    unfold Der.isEmpty
    rw [List.isEmpty_iff]
    intro hnil
    rw [hnil] at hshorter
    exact absurd hshorter (Nat.not_lt_zero _)
  rw [eachNested, if_neg hempty]
  split
  · next heq =>
    rw [h] at heq
    cases heq
  · next heq =>
    rw [h] at heq
    cases heq
    cases body s item <;> rfl

/-- A loop over a list that succeeded: it was at the end, or took one value in and went on.
Induction on the bytes left. -/
theorem eachNested_induction {σ : Type} {tag : UInt8} {body : σ → Der → Except CertError σ} {s' : σ}
    {motive : σ → Der → Prop} (nil : ∀ d : Der, d.rest = [] → motive s' d)
    (cons : ∀ s d item d' s₁, d.nested tag = .ok (item, d') → body s item = .ok s₁ →
      eachNested tag body s₁ d' = .ok s' → motive s₁ d' → motive s d) {s : σ} {d : Der}
    (h : eachNested tag body s d = .ok s') : motive s d := by
  induction hn : d.rest.length using Nat.strongRecOn generalizing s d with
  | _ n ih =>
    by_cases hempty : d.isEmpty = true
    · have hrest : d.rest = [] := List.isEmpty_iff.mp hempty
      rw [eachNested_nil hrest] at h
      cases h
      exact nil d hrest
    · cases hnested : d.nested tag with
      | error e =>
        rw [eachNested, if_neg hempty] at h
        split at h
        · cases h
        · next heq =>
          rw [hnested] at heq
          cases heq
      | ok read =>
        obtain ⟨item, d'⟩ := read
        rw [eachNested_cons hnested] at h
        obtain ⟨s₁, hitem, h⟩ := bind_eq_ok.mp h
        have hshorter := Der.nested_shorter hnested
        exact cons s d item d' s₁ hnested hitem h (ih _ (by omega) h rfl)

/-- A list that was read has each of its values in the shape the body asks for. -/
theorem each_of_eachNested {σ : Type} {tag : UInt8} {body : σ → Der → Except CertError σ}
    {inner : Shape} (hbody : ∀ s item s', body s item = .ok s' → inner item.rest) {s s' : σ}
    {d : Der} (h : eachNested tag body s d = .ok s') : Each (Wraps tag inner) d.rest := by
  refine eachNested_induction (motive := fun _ d => Each (Wraps tag inner) d.rest) ?_ ?_ h
  · intro d hrest
    rw [hrest]
    exact Each.nil _
  · intro s d item d' s₁ hnested hitem _ ih
    obtain ⟨bytes, hbytes, hrest⟩ := read_of_nested hnested (hbody s item s₁ hitem)
    rw [hrest]
    exact Each.cons hbytes ih

theorem read_of_signatureAlgorithm {d d' : Der} {id : List UInt8}
    (h : readSignatureAlgorithm d = .ok (id, d')) :
    Read algorithmBytes d d' ∧ declaredAlgorithm d = .ok id
      ∧ (id = Oid.ecdsaWithSha256 ∨ id = Oid.ecdsaWithSha512) := by
  obtain ⟨⟨alg, d₁⟩, halg, h⟩ := bind_eq_ok.mp h
  obtain ⟨⟨id', rest⟩, hid, h⟩ := bind_eq_ok.mp h
  obtain ⟨hempty, h⟩ := refuse_eq_ok.mp h
  obtain ⟨hknown, h⟩ := require_eq_ok.mp h
  cases h
  have hrest : rest.rest = [] := by simpa [Der.isEmpty] using hempty
  refine ⟨read_of_nested (lift_eq_ok.mp halg) ?_, ?_, hknown⟩
  · exact (read_of_expect (lift_eq_ok.mp hid) trivial).spelled hrest
  · exact bind_eq_ok.mpr ⟨_, lift_eq_ok.mp halg, bind_eq_ok.mpr ⟨_, lift_eq_ok.mp hid, rfl⟩⟩

theorem attribute_of_read {name name' : Name} {attr : Der}
    (h : name.readAttribute attr = .ok name') :
    Spelled [Primitive Tag.oid, Tagged fun _ => True] attr.rest := by
  obtain ⟨⟨id, d₁⟩, hid, h⟩ := bind_eq_ok.mp h
  obtain ⟨⟨tag, value, d₂⟩, hvalue, h⟩ := bind_eq_ok.mp h
  obtain ⟨_, hfinish, -⟩ := bind_eq_ok.mp h
  have hend : d₂.rest = [] := Der.finish_eq_ok.mp (lift_eq_ok.mp hfinish)
  apply (read_of_expect (lift_eq_ok.mp hid) trivial).spelled
  exact (read_of_any (lift_eq_ok.mp hvalue) trivial).spelled hend

theorem read_of_readName {d d' : Der} {name : Name} (h : readName d = .ok (name, d')) :
    Read nameBytes d d' := by
  obtain ⟨⟨tag, encoded, contents, d₁⟩, hraw, h⟩ := bind_eq_ok.mp h
  obtain ⟨name', hname, h⟩ := bind_eq_ok.mp h
  cases h
  obtain ⟨htlv, hrest⟩ := Der.anyRaw_eq_ok.mp (lift_eq_ok.mp hraw)
  refine ⟨encoded, ⟨tag, contents, htlv, ?_⟩, hrest⟩
  apply each_of_eachNested _ hname
  intro name₁ rdn name₂ hrdn
  apply each_of_eachNested _ hrdn
  intro name₃ attr name₄ hattr
  exact attribute_of_read hattr

theorem read_of_readTime {d d' : Der} {time : Int} (h : readTime d = .ok (time, d')) :
    Read (Tagged fun _ => True) d d' := by
  obtain ⟨⟨tag, contents, d₁⟩, hany, h⟩ := bind_eq_ok.mp h
  obtain ⟨-, h⟩ := refuse_eq_ok.mp h
  obtain ⟨_, -, h⟩ := bind_eq_ok.mp h
  obtain ⟨_, -, h⟩ := bind_eq_ok.mp h
  obtain ⟨_, -, h⟩ := bind_eq_ok.mp h
  obtain ⟨_, -, h⟩ := bind_eq_ok.mp h
  obtain ⟨_, -, h⟩ := bind_eq_ok.mp h
  obtain ⟨_, -, h⟩ := bind_eq_ok.mp h
  obtain ⟨-, h⟩ := refuse_eq_ok.mp h
  obtain ⟨-, h⟩ := refuse_eq_ok.mp h
  cases h
  exact read_of_any (lift_eq_ok.mp hany) trivial

theorem read_of_readValidity {d d' : Der} {notBefore notAfter : Int}
    (h : readValidity d = .ok (notBefore, notAfter, d')) : Read validityBytes d d' := by
  obtain ⟨⟨validity, d₁⟩, hnested, h⟩ := bind_eq_ok.mp h
  obtain ⟨⟨t₁, v₁⟩, hbefore, h⟩ := bind_eq_ok.mp h
  obtain ⟨⟨t₂, v₂⟩, hafter, h⟩ := bind_eq_ok.mp h
  obtain ⟨_, hfinish, h⟩ := bind_eq_ok.mp h
  cases h
  have hend : v₂.rest = [] := Der.finish_eq_ok.mp (lift_eq_ok.mp hfinish)
  apply read_of_nested (lift_eq_ok.mp hnested)
  exact (read_of_readTime hbefore).spelled ((read_of_readTime hafter).spelled hend)

theorem read_of_bitString {d d' : Der} {unused : UInt8} {bytes : List UInt8} {inner : Shape}
    (h : d.bitString = .ok (unused, bytes, d')) (hinner : inner (unused :: bytes)) :
    Read (Wraps Tag.bitString inner) d d' := by
  obtain ⟨⟨contents, d₁⟩, hexpect, h⟩ := bind_eq_ok.mp h
  cases contents with
  | nil => cases h
  | cons first rest =>
    obtain ⟨-, h⟩ := refuse_eq_ok.mp h
    cases h
    exact read_of_expect hexpect hinner

/-- A key that was read is spelled as the grammar has it. -/
theorem read_of_readSpki {d d' : Der} {curve : Curve} {point : List UInt8}
    (h : readSpki d = .ok (curve, point, d')) : Read keyInfoBytes d d' := by
  obtain ⟨⟨spki, d₁⟩, hspki, h⟩ := bind_eq_ok.mp h
  obtain ⟨⟨alg, s₁⟩, halg, h⟩ := bind_eq_ok.mp h
  obtain ⟨⟨kind, a₁⟩, hkind, h⟩ := bind_eq_ok.mp h
  obtain ⟨-, h⟩ := refuse_eq_ok.mp h
  obtain ⟨⟨named, a₂⟩, hnamed, h⟩ := bind_eq_ok.mp h
  obtain ⟨curve', -, h⟩ := bind_eq_ok.mp h
  obtain ⟨_, halgEnd, h⟩ := bind_eq_ok.mp h
  obtain ⟨⟨unused, point', s₂⟩, hpoint, h⟩ := bind_eq_ok.mp h
  obtain ⟨_, hspkiEnd, h⟩ := bind_eq_ok.mp h
  obtain ⟨-, h⟩ := refuse_eq_ok.mp h
  obtain ⟨-, h⟩ := refuse_eq_ok.mp h
  cases h
  have ha : a₂.rest = [] := Der.finish_eq_ok.mp (lift_eq_ok.mp halgEnd)
  have hs : s₂.rest = [] := Der.finish_eq_ok.mp (lift_eq_ok.mp hspkiEnd)
  have halgBytes : Spelled [Primitive Tag.oid, Primitive Tag.oid] alg.rest :=
    (read_of_expect (lift_eq_ok.mp hkind) trivial).spelled
      ((read_of_expect (lift_eq_ok.mp hnamed) trivial).spelled ha)
  apply read_of_nested (lift_eq_ok.mp hspki)
  apply (read_of_nested (lift_eq_ok.mp halg) halgBytes).spelled
  exact (read_of_bitString (lift_eq_ok.mp hpoint) trivial).spelled hs

/-! ## The extensions

An extension's value is read by a reader of its own, which has its own shape. -/

theorem readKeyUsage_shape {value : List UInt8} {usage : KeyUsage}
    (h : readKeyUsage value = .ok usage) : Primitive Tag.bitString value := by
  obtain ⟨⟨unused, bytes, d⟩, hbits, h⟩ := bind_eq_ok.mp h
  obtain ⟨_, hfinish, -⟩ := bind_eq_ok.mp h
  have hend : d.rest = [] := Der.finish_eq_ok.mp (lift_eq_ok.mp hfinish)
  have hread : Read (Primitive Tag.bitString) ⟨value⟩ d :=
    read_of_bitString (lift_eq_ok.mp hbits) trivial
  exact hread.whole hend

/-- A field that is read when its tag stands next. -/
theorem Read.maybe {α : Type} {tag : UInt8} {inner : Shape} {shapes : List Shape} {d d' : Der}
    {read : Except CertError (α × Der)} {dflt a : α}
    (h : (if d.peek = some tag then read else .ok (dflt, d)) = .ok (a, d'))
    (hread : read = .ok (a, d') → Read (Wraps tag inner) d d')
    (hrest : Spelled shapes d'.rest) : Spelled (Maybe (Wraps tag inner) :: shapes) d.rest := by
  by_cases hpeek : d.peek = some tag
  · rw [if_pos hpeek] at h
    obtain ⟨bytes, hbytes, hsplit⟩ := hread h
    exact ⟨bytes, d'.rest, hsplit, .inr hbytes, hrest⟩
  · rw [if_neg hpeek] at h
    cases h
    exact ⟨[], d.rest, rfl, .inl rfl, hrest⟩

theorem read_of_boolean {d d' : Der} {b : Bool} (h : d.boolean = .ok (b, d')) :
    Read (Primitive Tag.boolean) d d' := by
  obtain ⟨⟨contents, d₁⟩, hexpect, h⟩ := bind_eq_ok.mp h
  have hsame : d₁ = d' := by
    simp only at h
    split at h
    · cases h
      rfl
    · obtain ⟨-, h⟩ := require_eq_ok.mp h
      cases h
      rfl
  rw [← hsame]
  exact read_of_expect hexpect trivial

theorem read_of_smallUint {d d' : Der} {n : Nat} (h : d.smallUint = .ok (n, d')) :
    Read (Primitive Tag.integer) d d' := by
  obtain ⟨⟨contents, d₁⟩, hexpect, h⟩ := bind_eq_ok.mp h
  cases contents with
  | nil => cases h
  | cons first rest =>
    obtain ⟨-, h⟩ := refuse_eq_ok.mp h
    obtain ⟨-, h⟩ := refuse_eq_ok.mp h
    obtain ⟨-, h⟩ := refuse_eq_ok.mp h
    cases h
    exact read_of_expect hexpect trivial

/-- What is read as `BasicConstraints` is a sequence of an optional Boolean and an optional integer.
-/
theorem readBasicConstraints_shape {value : List UInt8} {constraints : BasicConstraints}
    (h : readBasicConstraints value = .ok constraints) :
    Wraps Tag.sequence (Spelled [Maybe (Primitive Tag.boolean), Maybe (Primitive Tag.integer)])
      value := by
  unfold readBasicConstraints at h
  simp only [branch_bind] at h
  obtain ⟨⟨seq, d⟩, hseq, h⟩ := bind_eq_ok.mp h
  obtain ⟨_, hfinish, h⟩ := bind_eq_ok.mp h
  obtain ⟨⟨ca, s₁⟩, hca, h⟩ := bind_eq_ok.mp h
  have hd : d.rest = [] := Der.finish_eq_ok.mp (lift_eq_ok.mp hfinish)
  have hlimit : Spelled [Maybe (Primitive Tag.integer)] s₁.rest := by
    simp only at h
    by_cases hpeek : s₁.peek = some Tag.integer
    · rw [if_pos hpeek] at h
      obtain ⟨⟨n, s₂⟩, hn, h⟩ := bind_eq_ok.mp h
      obtain ⟨_, hpair, h⟩ := bind_eq_ok.mp h
      cases hpair
      obtain ⟨_, hend, -⟩ := bind_eq_ok.mp h
      have hs : s₂.rest = [] := Der.finish_eq_ok.mp (lift_eq_ok.mp hend)
      obtain ⟨bytes, hbytes, hrest⟩ := read_of_smallUint (lift_eq_ok.mp hn)
      exact ⟨bytes, s₂.rest, hrest, .inr hbytes, hs⟩
    · rw [if_neg hpeek] at h
      obtain ⟨_, hpair, h⟩ := bind_eq_ok.mp h
      cases hpair
      obtain ⟨_, hend, -⟩ := bind_eq_ok.mp h
      have hs : s₁.rest = [] := Der.finish_eq_ok.mp (lift_eq_ok.mp hend)
      exact ⟨[], s₁.rest, rfl, .inl rfl, hs⟩
  have hboth := Read.maybe hca (fun hread => read_of_boolean (lift_eq_ok.mp hread)) hlimit
  exact (read_of_nested (lift_eq_ok.mp hseq) hboth).whole hd

/-- One extension as it stands in the list. -/
structure ExtensionEntry where
  id : List UInt8
  critical : Bool
  value : List UInt8
  deriving DecidableEq

/-- Reads one extension, without taking it in. -/
def readExtension (ext : Der) : Except CertError ExtensionEntry := do
  let (id, ext) ← ext.expect Tag.oid
  let (critical, ext) ←
    (if ext.peek = some Tag.boolean then (ext.boolean : Except CertError _)
      else .ok (false, ext))
  let (value, ext) ← ext.expect Tag.octetString
  ext.finish
  return ⟨id, critical, value⟩

/-- The parser takes an extension in as it reads it. -/
theorem read_eq_ok {s s' : Extensions} {ext : Der} :
    s.read ext = .ok s'
      ↔ ∃ e, readExtension ext = .ok e ∧ s.take e.id e.critical e.value = .ok s' := by
  unfold Extensions.read readExtension
  simp only [branch_bind]
  constructor
  · intro h
    obtain ⟨⟨id, e₁⟩, hid, h⟩ := bind_eq_ok.mp h
    obtain ⟨⟨critical, e₂⟩, hcritical, h⟩ := bind_eq_ok.mp h
    obtain ⟨⟨value, e₃⟩, hvalue, h⟩ := bind_eq_ok.mp h
    obtain ⟨_, hfinish, h⟩ := bind_eq_ok.mp h
    refine ⟨⟨id, critical, value⟩, bind_eq_ok.mpr ⟨_, hid, ?_⟩, h⟩
    refine bind_eq_ok.mpr ⟨_, hcritical, bind_eq_ok.mpr ⟨_, hvalue, ?_⟩⟩
    exact bind_eq_ok.mpr ⟨(), hfinish, rfl⟩
  · rintro ⟨e, hread, htake⟩
    obtain ⟨⟨id, e₁⟩, hid, h⟩ := bind_eq_ok.mp hread
    obtain ⟨⟨critical, e₂⟩, hcritical, h⟩ := bind_eq_ok.mp h
    obtain ⟨⟨value, e₃⟩, hvalue, h⟩ := bind_eq_ok.mp h
    obtain ⟨_, hfinish, h⟩ := bind_eq_ok.mp h
    cases h
    refine bind_eq_ok.mpr ⟨_, hid, bind_eq_ok.mpr ⟨_, hcritical, ?_⟩⟩
    exact bind_eq_ok.mpr ⟨_, hvalue, bind_eq_ok.mpr ⟨(), hfinish, htake⟩⟩

/-- Where the parser takes a value in, the value has the shape its reader asks for. -/
theorem extensionValue_of_take {s s' : Extensions} {id value : List UInt8} {critical : Bool}
    (h : s.take id critical value = .ok s') : extensionValue id value := by
  have hdistinct : Oid.keyUsage ≠ Oid.basicConstraints := by decide
  unfold Extensions.take at h
  constructor
  · intro hid
    rw [if_pos hid] at h
    obtain ⟨_, -, h⟩ := bind_eq_ok.mp h
    obtain ⟨usage, husage, -⟩ := bind_eq_ok.mp h
    exact readKeyUsage_shape husage
  · intro hid
    have hother : id ≠ Oid.keyUsage := by
      rw [hid]
      exact hdistinct.symm
    rw [if_neg hother, if_pos hid] at h
    obtain ⟨_, -, h⟩ := bind_eq_ok.mp h
    obtain ⟨constraints, hconstraints, -⟩ := bind_eq_ok.mp h
    exact readBasicConstraints_shape hconstraints

theorem extension_of_read {s s' : Extensions} {ext : Der} (h : s.read ext = .ok s') :
    ∃ id, Spelled [Tlv Tag.oid id, Maybe (Primitive Tag.boolean),
      Wraps Tag.octetString (extensionValue id)] ext.rest := by
  obtain ⟨e, hread, htake⟩ := read_eq_ok.mp h
  obtain ⟨⟨id, e₁⟩, hid, hread⟩ := bind_eq_ok.mp hread
  obtain ⟨⟨critical, e₂⟩, hcritical, hread⟩ := bind_eq_ok.mp hread
  obtain ⟨⟨value, e₃⟩, hvalue, hread⟩ := bind_eq_ok.mp hread
  obtain ⟨_, hfinish, hread⟩ := bind_eq_ok.mp hread
  cases hread
  have hend : e₃.rest = [] := Der.finish_eq_ok.mp (lift_eq_ok.mp hfinish)
  have hoctets : Read (Wraps Tag.octetString (extensionValue id)) e₂ e₃ :=
    read_of_expect (lift_eq_ok.mp hvalue) (extensionValue_of_take htake)
  obtain ⟨bytes, htlv, hrest⟩ := Der.expect_eq_ok.mp (lift_eq_ok.mp hid)
  refine ⟨id, bytes, e₁.rest, hrest, htlv, ?_⟩
  exact Read.maybe hcritical (fun hread => read_of_boolean (lift_eq_ok.mp hread))
    (hoctets.spelled hend)

/-! ## The whole certificate

The readers in a row, so that the shapes are in a row too, from the first byte of the certificate
to the last. -/

/-- What a successful parse says of the certificate's bytes and of the values it dropped. -/
structure Reading (der : List UInt8) (cert : Certificate) (f : Fields) : Prop where
  fields : Certificate.fields der = .ok f
  bytes : ∃ slack, f.slack = .ok slack ∧ certificateBytes slack der
  der : cert.der = der
  declared : f.declared = Oid.ecdsaWithSha256 ∨ f.declared = Oid.ecdsaWithSha512
  extensions : ∃ e, readExtensions f.extensions = .ok e ∧ cert.keyUsage = e.keyUsage
    ∧ cert.basicConstraints = e.basicConstraints

/-- A value that was read is passed over. -/
theorem skip_of_read {inner : Shape} {d d' d'' : Der} {n : Nat} (h : Read (Tagged inner) d d')
    (hrest : d'.skip n = .ok d'') : d.skip (n + 1) = .ok d'' := by
  obtain ⟨tag, contents, hany⟩ := any_of_read h
  exact bind_eq_ok.mpr ⟨_, hany, hrest⟩

theorem readVersion_eq_ok {d d' : Der} (h : Certificate.readVersion d = .ok d') :
    ∃ contents after, d.optional (Tag.context 0) = .ok (some contents, d')
      ∧ Read (Primitive Tag.integer) ⟨contents⟩ after := by
  obtain ⟨⟨version, d₁⟩, hoptional, h⟩ := bind_eq_ok.mp h
  cases version with
  | none => cases h
  | some contents =>
    obtain ⟨⟨n, after⟩, hn, h⟩ := bind_eq_ok.mp h
    obtain ⟨-, h⟩ := refuse_eq_ok.mp h
    cases h
    exact ⟨contents, after, lift_eq_ok.mp hoptional, read_of_smallUint (lift_eq_ok.mp hn)⟩

/-- An optional value, as the grammar has it. -/
theorem maybe_of_optional {d d' : Der} {tag : UInt8} {found : Option (List UInt8)} {inner : Shape}
    {shapes : List Shape} (h : d.optional tag = .ok (found, d'))
    (hinner : ∀ contents, found = some contents → inner contents)
    (hrest : Spelled shapes d'.rest) : Spelled (Maybe (Wraps tag inner) :: shapes) d.rest := by
  rcases Der.optional_eq_ok.mp h with ⟨contents, hfound, bytes, htlv, hsplit⟩ | ⟨-, rfl, -⟩
  · exact ⟨bytes, d'.rest, hsplit, .inr ⟨contents, htlv, hinner contents hfound⟩, hrest⟩
  · exact ⟨[], d'.rest, rfl, .inl rfl, hrest⟩

/-- The extension list the parser read fills its wrapper up to the slack. -/
theorem readExtensions_shape {contents : List UInt8} {e : Extensions}
    (h : readExtensions (some contents) = .ok e) :
    ∃ after, (Der.mk contents).skip 1 = .ok after
      ∧ Spelled [Wraps Tag.sequence (Each extensionBytes), Exactly after.rest] contents := by
  obtain ⟨⟨list, after⟩, hnested, hlist⟩ := bind_eq_ok.mp h
  have hitems : Each extensionBytes list.rest :=
    each_of_eachNested (fun _ _ _ hread => extension_of_read hread) hlist
  have hread : Read (Wraps Tag.sequence (Each extensionBytes)) ⟨contents⟩ after :=
    read_of_nested (lift_eq_ok.mp hnested) hitems
  refine ⟨after, skip_of_read hread.tagged rfl, ?_⟩
  exact hread.spelled ⟨after.rest, [], (List.append_nil _).symm, rfl, rfl⟩

/-- With no wrapper there is no list, and no slack behind it. -/
theorem readExtensions_slack {wrapper : Option (List UInt8)} {e : Extensions}
    (h : readExtensions wrapper = .ok e) :
    ∃ after, (match wrapper with
        | none => .ok ⟨[]⟩
        | some contents => (Der.mk contents).skip 1 : Except DerError Der) = .ok after
      ∧ ∀ contents, wrapper = some contents →
        Spelled [Wraps Tag.sequence (Each extensionBytes), Exactly after.rest] contents := by
  cases wrapper with
  | none => exact ⟨⟨[]⟩, rfl, fun contents hsome => by cases hsome⟩
  | some contents =>
    obtain ⟨after, hskip, hshape⟩ := readExtensions_shape h
    refine ⟨after, hskip, fun contents' hsome => ?_⟩
    cases hsome
    exact hshape

/-- A coordinate is read as one integer, whatever its padding. -/
theorem read_of_readCoordinate {width : Nat} {d d' : Der} {bytes : List UInt8}
    (h : readCoordinate width d = .ok (bytes, d')) : Read (Primitive Tag.integer) d d' := by
  unfold readCoordinate at h
  cases hexpect : d.expect Tag.integer with
  | error e =>
    rw [hexpect] at h
    cases h
  | ok read =>
    obtain ⟨contents, d₁⟩ := read
    have hread : Read (Primitive Tag.integer) d d₁ := read_of_expect hexpect trivial
    rw [hexpect] at h
    simp only at h
    cases contents with
    | nil => cases h
    | cons first rest =>
      -- with or without its leading zero, a coordinate leaves the reader where the value ends
      simp only at h
      split at h
      · obtain ⟨value, -, h⟩ := bind_eq_ok.mp h
        obtain ⟨-, h⟩ := refuse_eq_ok.mp h
        cases h
        exact hread
      · split at h
        · cases h
        · obtain ⟨value, -, h⟩ := bind_eq_ok.mp h
          obtain ⟨-, h⟩ := refuse_eq_ok.mp h
          cases h
          exact hread

theorem rawSignature_shape {value signature : List UInt8} {curve : Curve}
    (h : rawSignature value curve = .ok signature) :
    Wraps Tag.sequence (Spelled [Primitive Tag.integer, Primitive Tag.integer]) value := by
  obtain ⟨⟨seq, d⟩, hseq, h⟩ := bind_eq_ok.mp h
  obtain ⟨_, hfinish, h⟩ := bind_eq_ok.mp h
  obtain ⟨⟨r, s₁⟩, hr, h⟩ := bind_eq_ok.mp h
  obtain ⟨⟨s, s₂⟩, hs, h⟩ := bind_eq_ok.mp h
  obtain ⟨_, hend, -⟩ := bind_eq_ok.mp h
  have hd : d.rest = [] := Der.finish_eq_ok.mp (mapError_eq_ok.mp hfinish)
  have hrest : Spelled [] s₂.rest := Der.finish_eq_ok.mp (mapError_eq_ok.mp hend)
  have hboth : Spelled [Primitive Tag.integer, Primitive Tag.integer] seq.rest :=
    (read_of_readCoordinate hr).spelled ((read_of_readCoordinate hs).spelled hrest)
  exact (read_of_nested (mapError_eq_ok.mp hseq) hboth).whole hd

/-- **What a parse read.** The certificate's bytes are the grammar's, with the slack its own
fields show, and the fields the parser dropped are the ones its result was computed from. -/
theorem reading_of_parse {der : List UInt8} {cert : Certificate}
    (h : Certificate.parse der = .ok cert) : ∃ f, Reading der cert f := by
  -- every step of the parse succeeded: one equation for each
  obtain ⟨⟨c, outer⟩, hcert, h⟩ := bind_eq_ok.mp h
  obtain ⟨_, houter, h⟩ := bind_eq_ok.mp h
  obtain ⟨⟨tbsTag, tbs, tbsContents, c₁⟩, htbs, h⟩ := bind_eq_ok.mp h
  obtain ⟨d₁, hversion, h⟩ := bind_eq_ok.mp h
  obtain ⟨⟨serial, d₂⟩, hserial, h⟩ := bind_eq_ok.mp h
  obtain ⟨⟨innerAlg, d₃⟩, hinner, h⟩ := bind_eq_ok.mp h
  obtain ⟨⟨issuer, d₄⟩, hissuer, h⟩ := bind_eq_ok.mp h
  obtain ⟨⟨notBefore, notAfter, d₅⟩, hvalidity, h⟩ := bind_eq_ok.mp h
  obtain ⟨⟨subject, d₆⟩, hsubject, h⟩ := bind_eq_ok.mp h
  obtain ⟨⟨curve, publicKey, d₇⟩, hspki, h⟩ := bind_eq_ok.mp h
  obtain ⟨⟨issuerId, d₈⟩, hissuerId, h⟩ := bind_eq_ok.mp h
  obtain ⟨⟨subjectId, d₉⟩, hsubjectId, h⟩ := bind_eq_ok.mp h
  obtain ⟨⟨wrapper, d₁₀⟩, hwrapper, h⟩ := bind_eq_ok.mp h
  obtain ⟨extensions, hextensions, h⟩ := bind_eq_ok.mp h
  obtain ⟨⟨outerAlg, c₂⟩, houterAlg, h⟩ := bind_eq_ok.mp h
  obtain ⟨-, h⟩ := refuse_eq_ok.mp h
  obtain ⟨⟨unused, sigDer, c₃⟩, hsig, h⟩ := bind_eq_ok.mp h
  obtain ⟨hunused, h⟩ := refuse_eq_ok.mp h
  obtain ⟨_, hfinish, h⟩ := bind_eq_ok.mp h
  obtain ⟨signature, hraw, h⟩ := bind_eq_ok.mp h
  cases h
  -- what each of the equations says of the bytes it has read
  obtain ⟨contents, after, hoptional, hnumber⟩ := readVersion_eq_ok hversion
  obtain ⟨halgorithm, hid, hdeclared⟩ := read_of_signatureAlgorithm houterAlg
  obtain ⟨afterList, hskip, hlist⟩ := readExtensions_slack hextensions
  obtain ⟨htlv, htbsRest⟩ := Der.anyRaw_eq_ok.mp (lift_eq_ok.mp htbs)
  have hserialRead : Read (Primitive Tag.integer) d₁ d₂ :=
    read_of_expect (lift_eq_ok.mp hserial) trivial
  have hinnerRead : Read algorithmBytes d₂ d₃ := (read_of_signatureAlgorithm hinner).1
  have hissuerRead : Read nameBytes d₃ d₄ := read_of_readName hissuer
  have hvalidityRead : Read validityBytes d₄ d₅ := read_of_readValidity hvalidity
  have hsubjectRead : Read nameBytes d₅ d₆ := read_of_readName hsubject
  have hspkiRead : Read keyInfoBytes d₆ d₇ := read_of_readSpki hspki
  -- the fields; that a reader of tags and lengths finds them; and that their bytes make up the
  -- whole
  refine ⟨⟨tbsTag, contents, wrapper, d₁₀.rest, outerAlg⟩, ?_, ?_, rfl, hdeclared,
    extensions, hextensions, rfl, rfl⟩
  · -- the same values, by their tags and lengths alone
    have hany : c.any = .ok (tbsTag, tbsContents, c₁) :=
      Der.any_eq_ok.mpr ⟨tbs, htlv, htbsRest⟩
    have hsix : d₁.skip 6 = .ok d₇ :=
      skip_of_read hserialRead.tagged (skip_of_read hinnerRead.tagged (skip_of_read hissuerRead
        (skip_of_read hvalidityRead.tagged (skip_of_read hsubjectRead
          (skip_of_read hspkiRead.tagged rfl)))))
    refine bind_eq_ok.mpr ⟨_, lift_eq_ok.mp hcert, bind_eq_ok.mpr ⟨_, hany, ?_⟩⟩
    refine bind_eq_ok.mpr ⟨_, hoptional, bind_eq_ok.mpr ⟨_, hsix, ?_⟩⟩
    refine bind_eq_ok.mpr ⟨_, lift_eq_ok.mp hissuerId, ?_⟩
    refine bind_eq_ok.mpr ⟨_, lift_eq_ok.mp hsubjectId, ?_⟩
    refine bind_eq_ok.mpr ⟨_, lift_eq_ok.mp hwrapper, ?_⟩
    exact bind_eq_ok.mpr ⟨_, hid, rfl⟩
  · refine ⟨⟨tbsTag, after.rest, afterList.rest, d₁₀.rest⟩, ?_, ?_⟩
    · refine bind_eq_ok.mpr ⟨after, skip_of_read hnumber.tagged rfl, ?_⟩
      exact bind_eq_ok.mpr ⟨afterList, hskip, rfl⟩
    · -- the fields of `tbsCertificate` in a row, then the certificate around them
      have hversionRead : Read (versionBytes ⟨tbsTag, after.rest, afterList.rest, d₁₀.rest⟩)
          ⟨tbsContents⟩ d₁ := by
        rcases Der.optional_eq_ok.mp hoptional with ⟨_, hsome, bytes, hbytes, hrest⟩ | ⟨hnone, -⟩
        · cases hsome
          exact ⟨bytes, ⟨contents, hbytes, hnumber.spelled
            ⟨after.rest, [], (List.append_nil _).symm, rfl, rfl⟩⟩, hrest⟩
        · cases hnone
      have htbsShape : tbsBytes ⟨tbsTag, after.rest, afterList.rest, d₁₀.rest⟩ tbs := by
        refine ⟨tbsContents, htlv, hversionRead.spelled ?_⟩
        apply hserialRead.spelled
        apply hinnerRead.spelled
        apply hissuerRead.spelled
        apply hvalidityRead.spelled
        apply hsubjectRead.spelled
        apply hspkiRead.spelled
        apply maybe_of_optional (lift_eq_ok.mp hissuerId) fun _ _ => trivial
        apply maybe_of_optional (lift_eq_ok.mp hsubjectId) fun _ _ => trivial
        apply maybe_of_optional (lift_eq_ok.mp hwrapper) hlist
        exact ⟨d₁₀.rest, [], (List.append_nil _).symm, rfl, rfl⟩
      -- the signature, two numbers in a bit string without unused bits, ends the certificate
      have hsigShape : Read signatureBytes c₂ c₃ := by
        refine read_of_bitString (lift_eq_ok.mp hsig) ⟨sigDer, ?_, rawSignature_shape hraw⟩
        rw [not_not.mp hunused]
      have hend : Spelled [] c₃.rest := Der.finish_eq_ok.mp (lift_eq_ok.mp hfinish)
      have hcertShape : Spelled
          [tbsBytes ⟨tbsTag, after.rest, afterList.rest, d₁₀.rest⟩, algorithmBytes, signatureBytes]
          c.rest :=
        ⟨tbs, c₁.rest, htbsRest, htbsShape, halgorithm.spelled (hsigShape.spelled hend)⟩
      have houterEnd : outer.rest = [] := Der.finish_eq_ok.mp (lift_eq_ok.mp houter)
      exact (read_of_nested (lift_eq_ok.mp hcert) hcertShape).whole houterEnd

end Iso15118.Pnc.Pki
