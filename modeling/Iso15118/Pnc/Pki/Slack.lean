import Iso15118.Pnc.Pki.Fields
import Iso15118.Pnc.Pki.Path

/-!
# Bytes a certificate may carry unread

A parser that leaves bytes behind accepts many encodings of what it read, and another parser may
read those bytes. Here: exactly when `Certificate.parse` has read a certificate to its last byte.

* **`ReadToEnd`** — the bytes of the certificate are those of its values, at every level;
* **`fields_of_readToEnd`** — a certificate without slack shows none when taken apart;
* **`readToEnd_iff_noSlack`** — the four places the parser leaves unchecked are the only ones.
-/

namespace Iso15118.Pnc.Pki

open Iso15118.Lib

/-- The outer value and `tbsCertificate` are sequences, and every constructed value the parser
descends into is filled to its end by what it read there. -/
def ReadToEnd (der : List UInt8) : Prop := certificateBytes Slack.none der

/-! ## Taking a certificate of the grammar apart

The grammar followed from the front: each shape leaves the reader where the next one begins. -/

theorem skip_of_spelled {inner : Shape} {shapes : List Shape} {d : Der}
    (h : Spelled (Tagged inner :: shapes) d.rest) :
    ∃ d' : Der, Spelled shapes d'.rest
      ∧ ∀ n d'', d'.skip n = .ok d'' → d.skip (n + 1) = .ok d'' := by
  obtain ⟨bytes, rest, hsplit, hbytes, hrest⟩ := h
  refine ⟨⟨rest⟩, hrest, fun n d'' hskip => ?_⟩
  exact skip_of_read ⟨bytes, hbytes, hsplit⟩ hskip

/-- A value under its own tag is a value. -/
theorem Spelled.tagged {tag : UInt8} {inner : Shape} {shapes : List Shape} {bytes : List UInt8}
    (h : Spelled (Wraps tag inner :: shapes) bytes) : Spelled (Tagged inner :: shapes) bytes := by
  obtain ⟨first, rest, hsplit, hfirst, hrest⟩ := h
  exact ⟨first, rest, hsplit, ⟨tag, hfirst⟩, hrest⟩

theorem optional_of_spelled {tag : UInt8} {inner : Shape} {shapes : List Shape} {d : Der}
    (h : Spelled (Maybe (Wraps tag inner) :: shapes) d.rest)
    (hnext : ∀ rest, Spelled shapes rest → rest.head? ≠ some tag) :
    ∃ found d', d.optional tag = .ok (found, d') ∧ Spelled shapes d'.rest
      ∧ ∀ contents, found = some contents → inner contents := by
  obtain ⟨bytes, rest, hsplit, hbytes, hrest⟩ := h
  rcases hbytes with rfl | ⟨contents, htlv, hinner⟩
  · refine ⟨none, d, ?_, ?_, fun contents hsome => by cases hsome⟩
    · apply Der.optional_eq_ok.mpr
      have hhead : d.rest.head? ≠ some tag := by
        rw [hsplit]
        exact hnext rest hrest
      exact .inr ⟨rfl, rfl, hhead⟩
    · rw [hsplit]
      exact hrest
  · refine ⟨some contents, ⟨rest⟩, ?_, hrest, fun contents' hsome => ?_⟩
    · exact Der.optional_eq_ok.mpr (.inl ⟨contents, rfl, bytes, htlv, hsplit⟩)
    · cases hsome
      exact hinner

/-- What starts with an optional value of another tag, or with what follows it. -/
theorem head?_of_maybe {tag other : UInt8} {inner : Shape} {shapes : List Shape}
    {bytes : List UInt8} (hother : other ≠ tag)
    (h : Spelled (Maybe (Wraps other inner) :: shapes) bytes)
    (hnext : ∀ rest, Spelled shapes rest → rest.head? ≠ some tag) : bytes.head? ≠ some tag := by
  obtain ⟨first, rest, rfl, hfirst, hrest⟩ := h
  rcases hfirst with rfl | ⟨contents, htlv, -⟩
  · exact hnext rest hrest
  · rw [htlv.head? rest]
    intro hsame
    exact hother (Option.some.inj hsame)

theorem head?_of_exactly_nil {tag : UInt8} {bytes : List UInt8} (h : Spelled [Exactly []] bytes) :
    bytes.head? ≠ some tag := by
  obtain ⟨first, rest, rfl, rfl, rfl⟩ := h
  intro hhead
  cases hhead

theorem rest_of_exactly_nil {bytes : List UInt8} (h : Spelled [Exactly []] bytes) : bytes = [] := by
  obtain ⟨first, rest, rfl, rfl, rfl⟩ := h
  rfl

/-- A certificate of the grammar, taken apart, shows no slack. -/
theorem fields_of_readToEnd {der : List UInt8} (h : ReadToEnd der) :
    ∃ f, Certificate.fields der = .ok f ∧ f.slack = .ok Slack.none := by
  obtain ⟨contents, hder, tbs, afterTbs, hcontents, htbs, hafter⟩ := h
  obtain ⟨tbsContents, htbsTlv, hfields⟩ := htbs
  obtain ⟨alg, afterAlg, rfl, ⟨algContents, halgTlv, hoid⟩, -⟩ := hafter
  obtain ⟨oidBytes, oidRest, hoidSplit, ⟨id, hidTlv, -⟩, -⟩ := hoid
  obtain ⟨version, afterVersion, hversionSplit, ⟨number, hversionTlv, hnumber⟩, hrow⟩ := hfields
  have hcert : (Der.mk der).nested Tag.sequence = .ok (⟨contents⟩, ⟨[]⟩) :=
    Der.nested_eq_ok.mpr ⟨der, hder, (List.append_nil der).symm⟩
  have hany : (Der.mk contents).any = .ok (Tag.sequence, tbsContents, ⟨alg ++ afterAlg⟩) :=
    Der.any_eq_ok.mpr ⟨tbs, htbsTlv, hcontents⟩
  have hversion : (Der.mk tbsContents).optional (Tag.context 0)
      = .ok (some number, ⟨afterVersion⟩) :=
    Der.optional_eq_ok.mpr (.inl ⟨number, rfl, version, hversionTlv, hversionSplit⟩)
  have hdeclared : declaredAlgorithm ⟨alg ++ afterAlg⟩ = .ok id := by
    refine bind_eq_ok.mpr ⟨(⟨algContents⟩, ⟨afterAlg⟩), ?_, ?_⟩
    · exact Der.nested_eq_ok.mpr ⟨alg, halgTlv, rfl⟩
    · exact bind_eq_ok.mpr
        ⟨(id, ⟨oidRest⟩), Der.expect_eq_ok.mpr ⟨oidBytes, hidTlv, hoidSplit⟩, rfl⟩
  -- the six fields every certificate has
  obtain ⟨d₁, hrow, hskip₁⟩ := skip_of_spelled (d := ⟨afterVersion⟩) hrow.tagged
  obtain ⟨d₂, hrow, hskip₂⟩ := skip_of_spelled hrow.tagged
  obtain ⟨d₃, hrow, hskip₃⟩ := skip_of_spelled hrow
  obtain ⟨d₄, hrow, hskip₄⟩ := skip_of_spelled hrow.tagged
  obtain ⟨d₅, hrow, hskip₅⟩ := skip_of_spelled hrow
  obtain ⟨d₆, hrow, hskip₆⟩ := skip_of_spelled hrow.tagged
  have hsix : (Der.mk afterVersion).skip 6 = .ok d₆ :=
    hskip₁ _ _ (hskip₂ _ _ (hskip₃ _ _ (hskip₄ _ _ (hskip₅ _ _ (hskip₆ 0 _ rfl)))))
  -- and the three it may have: none of them starts like one behind it
  have hlast (tag : UInt8) : ∀ rest, Spelled [Exactly Slack.none.afterTbs] rest →
      rest.head? ≠ some tag := fun rest hrest => head?_of_exactly_nil hrest
  have hextensions (tag : UInt8) (hne : Tag.context 3 ≠ tag) : ∀ rest,
      Spelled [Maybe (extensionsBytes Slack.none), Exactly Slack.none.afterTbs] rest →
        rest.head? ≠ some tag :=
    fun rest hrest => head?_of_maybe hne hrest (hlast tag)
  obtain ⟨issuerId, d₇, hissuerId, hrow, -⟩ := optional_of_spelled hrow
    fun rest hrest => head?_of_maybe (by decide) hrest (hextensions 0x81 (by decide))
  obtain ⟨subjectId, d₈, hsubjectId, hrow, -⟩ := optional_of_spelled hrow
    (hextensions 0x82 (by decide))
  obtain ⟨wrapper, d₉, hwrapper, hrow, hlist⟩ := optional_of_spelled hrow (hlast (Tag.context 3))
  have hend : d₉.rest = [] := rest_of_exactly_nil hrow
  refine ⟨⟨Tag.sequence, number, wrapper, d₉.rest, id⟩, ?_, ?_⟩
  · refine bind_eq_ok.mpr ⟨_, hcert, bind_eq_ok.mpr ⟨_, hany, bind_eq_ok.mpr ⟨_, hversion, ?_⟩⟩⟩
    refine bind_eq_ok.mpr ⟨_, hsix, bind_eq_ok.mpr ⟨_, hissuerId, ?_⟩⟩
    refine bind_eq_ok.mpr ⟨_, hsubjectId, bind_eq_ok.mpr ⟨_, hwrapper, ?_⟩⟩
    exact bind_eq_ok.mpr ⟨_, hdeclared, rfl⟩
  · obtain ⟨d, hd, hskip⟩ := skip_of_spelled (d := ⟨number⟩) hnumber.tagged
    have hdEnd : d.rest = [] := rest_of_exactly_nil hd
    have hdSkip : (Der.mk number).skip 1 = .ok d := hskip 0 d rfl
    refine bind_eq_ok.mpr ⟨d, hdSkip, ?_⟩
    cases wrapper with
    | none =>
      refine bind_eq_ok.mpr ⟨⟨[]⟩, rfl, ?_⟩
      simp only [hdEnd, hend]
      rfl
    | some list =>
      obtain ⟨l, hl, hskip⟩ := skip_of_spelled (d := ⟨list⟩) (hlist list rfl).tagged
      have hlEnd : l.rest = [] := rest_of_exactly_nil hl
      have hlSkip : (Der.mk list).skip 1 = .ok l := hskip 0 l rfl
      refine bind_eq_ok.mpr ⟨l, hlSkip, ?_⟩
      simp only [hdEnd, hlEnd, hend]
      rfl

/-! ## Bytes put behind the version

The version is read off the front of its wrapper, and what is behind it in there changes nothing
but lengths. -/

/-- `padded` is `der` with `extra` behind the version number, inside its wrapper, and the lengths
around it adjusted. -/
def VersionPadded (extra der padded : List UInt8) : Prop :=
  ∃ number version version' fields tag tbs tbs' after,
    Tlv (Tag.context 0) number version ∧ Tlv (Tag.context 0) (number ++ extra) version'
      ∧ Tlv tag (version ++ fields) tbs ∧ Tlv tag (version' ++ fields) tbs'
      ∧ Tlv Tag.sequence (tbs ++ after) der ∧ Tlv Tag.sequence (tbs' ++ after) padded

/-- The version is read off the front of its wrapper. -/
theorem smallUint_append {number extra : List UInt8} {n : Nat} {after : Der}
    (h : (Der.mk number).smallUint = .ok (n, after)) :
    (Der.mk (number ++ extra)).smallUint = .ok (n, ⟨after.rest ++ extra⟩) := by
  obtain ⟨⟨contents, d⟩, hexpect, h⟩ := bind_eq_ok.mp h
  obtain ⟨bytes, htlv, hsplit⟩ := Der.expect_eq_ok.mp hexpect
  have hsplit : number = bytes ++ d.rest := hsplit
  have hexpect' : (Der.mk (number ++ extra)).expect Tag.integer
      = .ok (contents, ⟨d.rest ++ extra⟩) := by
    apply Der.expect_eq_ok.mpr
    refine ⟨bytes, htlv, ?_⟩
    rw [hsplit, List.append_assoc]
  refine bind_eq_ok.mpr ⟨_, hexpect', ?_⟩
  cases contents with
  | nil => cases h
  | cons first rest =>
    obtain ⟨hpadded, h⟩ := refuse_eq_ok.mp h
    obtain ⟨hnegative, h⟩ := refuse_eq_ok.mp h
    obtain ⟨hwide, h⟩ := refuse_eq_ok.mp h
    cases h
    exact refuse_eq_ok.mpr ⟨hpadded, refuse_eq_ok.mpr ⟨hnegative, refuse_eq_ok.mpr ⟨hwide, rfl⟩⟩⟩

/-- Octets behind the version number, inside its wrapper, are not looked at. -/
theorem readVersion_padded {number extra version version' fields : List UInt8} {d : Der}
    (hversion : Tlv (Tag.context 0) number version)
    (hversion' : Tlv (Tag.context 0) (number ++ extra) version')
    (h : Certificate.readVersion ⟨version ++ fields⟩ = .ok d) :
    Certificate.readVersion ⟨version' ++ fields⟩ = .ok d := by
  obtain ⟨⟨found, d₁⟩, hoptional, h⟩ := bind_eq_ok.mp h
  cases found with
  | none => cases h
  | some contents =>
    obtain ⟨⟨n, after⟩, hn, h⟩ := bind_eq_ok.mp h
    obtain ⟨htwo, h⟩ := refuse_eq_ok.mp h
    cases h
    rcases Der.optional_eq_ok.mp (lift_eq_ok.mp hoptional) with
      ⟨contents', hsome, bytes, hbytes, hsplit⟩ | ⟨hnone, -⟩
    · cases hsome
      have hsplit : version ++ fields = bytes ++ d.rest := hsplit
      obtain ⟨-, rfl, -, hrest⟩ := hversion.unique hbytes hsplit
      have hoptional' : (Der.mk (version' ++ fields)).optional (Tag.context 0)
          = .ok (some (number ++ extra), d) :=
        Der.optional_eq_ok.mpr (.inl ⟨_, rfl, version', hversion', by rw [hrest]⟩)
      refine bind_eq_ok.mpr ⟨_, lift_eq_ok.mpr hoptional', ?_⟩
      refine bind_eq_ok.mpr ⟨_, lift_eq_ok.mpr (smallUint_append (lift_eq_ok.mp hn)), ?_⟩
      exact refuse_eq_ok.mpr ⟨htwo, rfl⟩
    · cases hnone

/-- Whatever is put behind the version of a certificate that is accepted, the result is accepted
and reads the same. -/
theorem parse_versionPadded {extra der padded : List UInt8} {cert : Certificate}
    (h : Certificate.parse der = .ok cert) (hpadded : VersionPadded extra der padded) :
    ∃ tbs, Certificate.parse padded = .ok { cert with der := padded, tbs := tbs } := by
  obtain ⟨number, version, version', fields, tag, tbs, tbs', after, hversion, hversion', htbs,
    htbs', hder, hpadded⟩ := hpadded
  obtain ⟨⟨c, outer⟩, hcert, h⟩ := bind_eq_ok.mp h
  obtain ⟨_, houter, h⟩ := bind_eq_ok.mp h
  obtain ⟨⟨tbsTag, tbsBytes, tbsContents, c₁⟩, hraw, h⟩ := bind_eq_ok.mp h
  obtain ⟨d₁, hreadVersion, h⟩ := bind_eq_ok.mp h
  obtain ⟨⟨serial, d₂⟩, hserial, h⟩ := bind_eq_ok.mp h
  obtain ⟨⟨innerAlg, d₃⟩, hinner, h⟩ := bind_eq_ok.mp h
  obtain ⟨⟨issuer, d₄⟩, hissuer, h⟩ := bind_eq_ok.mp h
  obtain ⟨⟨notBefore, notAfter, d₅⟩, hvalidity, h⟩ := bind_eq_ok.mp h
  obtain ⟨⟨subject, d₆⟩, hsubject, h⟩ := bind_eq_ok.mp h
  obtain ⟨⟨curve, publicKey, d₇⟩, hspki, h⟩ := bind_eq_ok.mp h
  obtain ⟨⟨issuerId, d₈⟩, hissuerId, h⟩ := bind_eq_ok.mp h
  obtain ⟨⟨subjectId, d₉⟩, hsubjectId, h⟩ := bind_eq_ok.mp h
  obtain ⟨⟨wrapper, d₁₀⟩, hwrapper, h⟩ := bind_eq_ok.mp h
  obtain ⟨extensions, hextensions, h⟩ := bind_eq_ok.mp h
  obtain ⟨⟨outerAlg, c₂⟩, houterAlg, h⟩ := bind_eq_ok.mp h
  obtain ⟨halg, h⟩ := refuse_eq_ok.mp h
  obtain ⟨⟨unused, sigDer, c₃⟩, hsig, h⟩ := bind_eq_ok.mp h
  obtain ⟨hunused, h⟩ := refuse_eq_ok.mp h
  obtain ⟨_, hfinish, h⟩ := bind_eq_ok.mp h
  obtain ⟨signature, hsignature, h⟩ := bind_eq_ok.mp h
  cases h
  -- the three values around the version are the ones the parser read
  obtain ⟨bytes, hbytes, hsplit⟩ := Der.nested_eq_ok.mp (lift_eq_ok.mp hcert)
  have hsplit : der ++ [] = bytes ++ outer.rest := by
    rw [List.append_nil]
    exact hsplit
  obtain ⟨-, hc, -, -⟩ := hder.unique hbytes hsplit
  obtain ⟨htlv, hcSplit⟩ := Der.anyRaw_eq_ok.mp (lift_eq_ok.mp hraw)
  obtain ⟨rfl, rfl, rfl, hc₁⟩ := htbs.unique htlv (hc.trans hcSplit)
  have hcert' : (Der.mk padded).nested Tag.sequence = .ok (⟨tbs' ++ after⟩, ⟨[]⟩) :=
    Der.nested_eq_ok.mpr ⟨padded, hpadded, (List.append_nil padded).symm⟩
  have hraw' : (Der.mk (tbs' ++ after)).anyRaw = .ok (tag, tbs', version' ++ fields, c₁) :=
    Der.anyRaw_eq_ok.mpr ⟨htbs', by rw [hc₁]⟩
  have hversionRead : Certificate.readVersion ⟨version' ++ fields⟩ = .ok d₁ :=
    readVersion_padded hversion hversion' hreadVersion
  -- from there on the two runs are the same
  refine ⟨tbs', ?_⟩
  refine bind_eq_ok.mpr ⟨_, lift_eq_ok.mpr hcert', bind_eq_ok.mpr ⟨(), rfl, ?_⟩⟩
  refine bind_eq_ok.mpr ⟨_, lift_eq_ok.mpr hraw', bind_eq_ok.mpr ⟨_, hversionRead, ?_⟩⟩
  refine bind_eq_ok.mpr ⟨_, hserial, bind_eq_ok.mpr ⟨_, hinner, ?_⟩⟩
  refine bind_eq_ok.mpr ⟨_, hissuer, bind_eq_ok.mpr ⟨_, hvalidity, ?_⟩⟩
  refine bind_eq_ok.mpr ⟨_, hsubject, bind_eq_ok.mpr ⟨_, hspki, ?_⟩⟩
  refine bind_eq_ok.mpr ⟨_, hissuerId, bind_eq_ok.mpr ⟨_, hsubjectId, ?_⟩⟩
  refine bind_eq_ok.mpr ⟨_, hwrapper, bind_eq_ok.mpr ⟨_, hextensions, ?_⟩⟩
  refine bind_eq_ok.mpr ⟨_, houterAlg, refuse_eq_ok.mpr ⟨halg, ?_⟩⟩
  refine bind_eq_ok.mpr ⟨_, hsig, refuse_eq_ok.mpr ⟨hunused, ?_⟩⟩
  exact bind_eq_ok.mpr ⟨(), hfinish, bind_eq_ok.mpr ⟨_, hsignature, rfl⟩⟩

/-! ## Exactly where bytes go unread

Both directions: a certificate whose bytes are its values shows no slack, and one that shows none
is of the grammar. -/

/-- Taken apart, the certificate shows `tbsCertificate` under its tag and nothing behind the
version, the extension list and the last field. -/
def NoSlack (der : List UInt8) : Prop :=
  ∃ f, Certificate.fields der = .ok f ∧ f.slack = .ok Slack.none

/-- **Where bytes go unread.** An accepted certificate was read to its end exactly when it shows no
slack. And none is guarded against slack: bytes behind the version are accepted in all of them. -/
theorem readToEnd_iff_noSlack {der : List UInt8} {cert : Certificate}
    (h : Certificate.parse der = .ok cert) :
    (ReadToEnd der ↔ NoSlack der)
      ∧ ∀ extra padded, VersionPadded extra der padded →
        ∃ tbs, Certificate.parse padded = .ok { cert with der := padded, tbs := tbs } := by
  refine ⟨⟨fields_of_readToEnd, ?_⟩, fun extra padded hpadded => parse_versionPadded h hpadded⟩
  rintro ⟨f, hfields, hslack⟩
  obtain ⟨f', hread⟩ := reading_of_parse h
  have hsame := hread.fields
  rw [hfields] at hsame
  cases hsame
  obtain ⟨slack, hslack', hbytes⟩ := hread.bytes
  rw [hslack] at hslack'
  cases hslack'
  exact hbytes

/-- The sample leaf, which shows no slack. -/
theorem readToEnd_iff_noSlack_leaf :
    ∃ cert, Certificate.parse Sample.leaf = .ok cert
      ∧ (ReadToEnd Sample.leaf ↔ NoSlack Sample.leaf)
      ∧ ∀ extra padded, VersionPadded extra Sample.leaf padded →
        ∃ tbs, Certificate.parse padded = .ok { cert with der := padded, tbs := tbs } := by
  have hok : (Certificate.parse Sample.leaf).toOption.isSome = true := by decide +kernel
  cases h : Certificate.parse Sample.leaf with
  | error e =>
    rw [h] at hok
    cases hok
  | ok cert => exact ⟨cert, rfl, readToEnd_iff_noSlack h⟩

/-- The sample leaf with `tbsCertificate` tagged as a set, and a byte behind its version and its
last field. -/
def Sample.slackLeaf : List UInt8 :=
  tlv Tag.sequence
    (tlv Tag.set
        (tlv (Tag.context 0) (tlv Tag.integer [0x02] ++ [0xDE]) ++ tlv Tag.integer [0x01] ++ ecdsa
          ++ name 0x43 ++ validity ++ name 0x4C ++ spki ++ constraints false ++ [0xAD])
      ++ ecdsa
      ++ tlv Tag.bitString
        (0x00 :: tlv Tag.sequence (tlv Tag.integer [0x01] ++ tlv Tag.integer [0x01])))

/-- It is accepted, with three of its places left unread. -/
theorem not_readToEnd_slackLeaf :
    ∃ cert, Certificate.parse Sample.slackLeaf = .ok cert ∧ ¬ ReadToEnd Sample.slackLeaf := by
  have hok : (Certificate.parse Sample.slackLeaf).toOption.isSome = true := by decide +kernel
  have hslack : (Certificate.fields Sample.slackLeaf >>= Fields.slack)
      = .ok ⟨Tag.set, [0xDE], [], [0xAD]⟩ := by decide +kernel
  cases h : Certificate.parse Sample.slackLeaf with
  | error e =>
    rw [h] at hok
    cases hok
  | ok cert =>
    refine ⟨cert, rfl, fun hread => ?_⟩
    obtain ⟨f, hfields, hnone⟩ := fields_of_readToEnd hread
    rw [hfields] at hslack
    have hboth : Except.ok Slack.none
        = (.ok ⟨Tag.set, [0xDE], [], [0xAD]⟩ : Except DerError Slack) :=
      hnone.symm.trans hslack
    have hne : Slack.none ≠ ⟨Tag.set, [0xDE], [], [0xAD]⟩ := by decide
    exact hne (Except.ok.inj hboth)

end Iso15118.Pnc.Pki
