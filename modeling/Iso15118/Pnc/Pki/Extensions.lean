import Iso15118.Pnc.Pki.Fields
import Iso15118.Pnc.Pki.Path

/-!
# The extension list

RFC 5280 §4.2 asks three things of the list: that no extension stands in it twice, that a
critical one is understood, and that the ones understood are heeded. The parser takes extensions
in one after another and tracks two of them.

* **`Certificate.extensionList`** — the list as it stands in the certificate;
* **`ValueOf`** — what the certificate says of an extension is what the list says;
* **`followsRfc_iff`** — the parser keeps all three exactly while no other extension repeats.
-/

namespace Iso15118.Pnc.Pki

open Iso15118.Lib

/-! ## The list as it stands

Taken from the bytes and read with the parser's own loop. The parser folds over the same entries. -/

/-- The extensions of a certificate, in order. -/
def Fields.extensionList (f : Fields) : Except CertError (List ExtensionEntry) :=
  match f.extensions with
  | none => .ok []
  | some contents => do
      let (list, _) ← (Der.mk contents).nested Tag.sequence
      eachNested Tag.sequence
        (fun entries ext => do
          let e ← readExtension ext
          return entries ++ [e]) [] list

def Certificate.extensionList (der : List UInt8) : Except CertError (List ExtensionEntry) := do
  let f ← Certificate.fields der
  f.extensionList

/-- Takes a list in, one extension after another. -/
def Extensions.takeAll (s : Extensions) (entries : List ExtensionEntry) :
    Except CertError Extensions :=
  entries.foldlM (fun s e => s.take e.id e.critical e.value) s

theorem takeAll_cons_eq_ok {s s' : Extensions} {e : ExtensionEntry} {rest : List ExtensionEntry} :
    s.takeAll (e :: rest) = .ok s'
      ↔ ∃ s₁, s.take e.id e.critical e.value = .ok s₁ ∧ s₁.takeAll rest = .ok s' := by
  unfold Extensions.takeAll
  rw [List.foldlM_cons, bind_eq_ok]

/-- The parser's loop takes in the list it read. -/
theorem takeAll_of_eachNested {s s' : Extensions} {d : Der}
    (h : eachNested Tag.sequence Extensions.read s d = .ok s') :
    ∃ entries, (∀ before, eachNested Tag.sequence
        (fun entries ext => do
          let e ← readExtension ext
          return entries ++ [e]) before d = .ok (before ++ entries))
      ∧ s.takeAll entries = .ok s' := by
  refine eachNested_induction (motive := fun s d => ∃ entries, (∀ before, eachNested Tag.sequence
    (fun entries ext => do
      let e ← readExtension ext
      return entries ++ [e]) before d = .ok (before ++ entries))
    ∧ s.takeAll entries = .ok s') ?_ ?_ h
  · intro d hrest
    refine ⟨[], fun before => ?_, rfl⟩
    rw [eachNested_nil hrest, List.append_nil]
  · intro s d item d' s₁ hnested hitem _ ih
    obtain ⟨entries, hlist, htake⟩ := ih
    obtain ⟨e, hread, htakeOne⟩ := read_eq_ok.mp hitem
    refine ⟨e :: entries, fun before => ?_, takeAll_cons_eq_ok.mpr ⟨s₁, htakeOne, htake⟩⟩
    have hone := hlist (before ++ [e])
    rw [List.append_assoc] at hone
    rw [eachNested_cons hnested, hread]
    exact hone

/-- The list of a certificate that parses, and what the parser made of it. -/
theorem extensionList_of_parse {der : List UInt8} {cert : Certificate}
    (h : Certificate.parse der = .ok cert) :
    ∃ entries s, Certificate.extensionList der = .ok entries
      ∧ Extensions.start.takeAll entries = .ok s
      ∧ cert.keyUsage = s.keyUsage ∧ cert.basicConstraints = s.basicConstraints := by
  obtain ⟨f, hread⟩ := reading_of_parse h
  obtain ⟨s, hs, husage, hconstraints⟩ := hread.extensions
  have hlist : ∃ entries, f.extensionList = .ok entries
      ∧ Extensions.start.takeAll entries = .ok s := by
    unfold readExtensions at hs
    unfold Fields.extensionList
    cases hwrapper : f.extensions with
    | none =>
      rw [hwrapper] at hs
      cases hs
      exact ⟨[], rfl, rfl⟩
    | some contents =>
      rw [hwrapper] at hs
      obtain ⟨⟨list, after⟩, hnested, hloop⟩ := bind_eq_ok.mp hs
      obtain ⟨entries, hentries, htake⟩ := takeAll_of_eachNested hloop
      exact ⟨entries, bind_eq_ok.mpr ⟨_, hnested, hentries []⟩, htake⟩
  obtain ⟨entries, hentries, htake⟩ := hlist
  refine ⟨entries, s, ?_, htake, husage, hconstraints⟩
  exact bind_eq_ok.mpr ⟨f, lift_eq_ok.mpr hread.fields, hentries⟩

/-! ## What one extension does

One extension against one slot: it fills it, once, or leaves it alone. -/

/-- Taking an extension in either fills a slot that was free, when it is the slot's own, or leaves
the slot as it was. -/
def Fills {α : Type} (id : List UInt8) (read : List UInt8 → Except CertError α)
    (seen : Extensions → Bool) (slot : Extensions → Option α) : Prop :=
  ∀ (s : Extensions) (e : ExtensionEntry) (s₁ : Extensions),
    s.take e.id e.critical e.value = .ok s₁ →
      (e.id = id ∧ seen s = false ∧ seen s₁ = true
          ∧ ∃ a, read e.value = .ok a ∧ slot s₁ = some a)
        ∨ (e.id ≠ id ∧ seen s₁ = seen s ∧ slot s₁ = slot s)

/-- Taking an extension fills the slot of `KeyUsage` if it is one, and once; any other leaves it
alone. -/
theorem fills_keyUsage :
    Fills Oid.keyUsage readKeyUsage (fun s => s.seen.keyUsage) (fun s => s.keyUsage) := by
  intro s e s₁ h
  unfold Extensions.take at h
  by_cases hid : e.id = Oid.keyUsage
  · rw [if_pos hid] at h
    obtain ⟨seen, hmark, h⟩ := bind_eq_ok.mp h
    obtain ⟨usage, husage, h⟩ := bind_eq_ok.mp h
    obtain ⟨hfree, hmark⟩ := refuse_eq_ok.mp hmark
    cases h
    cases hmark
    exact .inl ⟨hid, eq_false_of_ne_true hfree, rfl, usage, husage, rfl⟩
  · rw [if_neg hid] at h
    refine .inr ⟨hid, ?_⟩
    split at h
    · obtain ⟨seen, hmark, h⟩ := bind_eq_ok.mp h
      obtain ⟨constraints, -, h⟩ := bind_eq_ok.mp h
      obtain ⟨-, hmark⟩ := refuse_eq_ok.mp hmark
      cases h
      cases hmark
      exact ⟨rfl, rfl⟩
    · split at h
      · cases h
        exact ⟨rfl, rfl⟩
      · obtain ⟨-, h⟩ := refuse_eq_ok.mp h
        cases h
        exact ⟨rfl, rfl⟩

/-- Taking an extension fills the slot of `BasicConstraints` if it is one, and once; any other
leaves it alone. -/
theorem fills_basicConstraints :
    Fills Oid.basicConstraints readBasicConstraints (fun s => s.seen.basicConstraints)
      (fun s => s.basicConstraints) := by
  intro s e s₁ h
  unfold Extensions.take at h
  -- the other extension leaves the slot alone
  by_cases husage : e.id = Oid.keyUsage
  · rw [if_pos husage] at h
    have hid : e.id ≠ Oid.basicConstraints := by
      rw [husage]
      decide
    obtain ⟨seen, hmark, h⟩ := bind_eq_ok.mp h
    obtain ⟨usage, -, h⟩ := bind_eq_ok.mp h
    obtain ⟨-, hmark⟩ := refuse_eq_ok.mp hmark
    cases h
    cases hmark
    exact .inr ⟨hid, rfl, rfl⟩
  · rw [if_neg husage] at h
    by_cases hid : e.id = Oid.basicConstraints
    · rw [if_pos hid] at h
      obtain ⟨seen, hmark, h⟩ := bind_eq_ok.mp h
      obtain ⟨constraints, hconstraints, h⟩ := bind_eq_ok.mp h
      obtain ⟨hfree, hmark⟩ := refuse_eq_ok.mp hmark
      cases h
      cases hmark
      exact .inl ⟨hid, eq_false_of_ne_true hfree, rfl, constraints, hconstraints, rfl⟩
    -- so does any that is not recognised
    · rw [if_neg hid] at h
      refine .inr ⟨hid, ?_⟩
      split at h
      · cases h
        exact ⟨rfl, rfl⟩
      · obtain ⟨-, h⟩ := refuse_eq_ok.mp h
        cases h
        exact ⟨rfl, rfl⟩

/-- An extension marked critical is taken in only if it is one of the two acted on. -/
theorem take_critical {s s₁ : Extensions} {e : ExtensionEntry}
    (h : s.take e.id e.critical e.value = .ok s₁) (hcritical : e.critical = true) :
    e.id = Oid.keyUsage ∨ e.id = Oid.basicConstraints := by
  by_cases husage : e.id = Oid.keyUsage
  · exact .inl husage
  · by_cases hconstraints : e.id = Oid.basicConstraints
    · exact .inr hconstraints
    · unfold Extensions.take at h
      rw [if_neg husage, if_neg hconstraints, hcritical] at h
      simp at h

/-! ## What a list does

The same along the list: a slot that was filled is not filled again, so its extension stands
there once. -/

/-- Where an extension stands among those of a list, its slot holds what it reads to; where it does
not, the slot holds nothing. -/
def ValueOf {α : Type} (id : List UInt8) (read : List UInt8 → Except CertError α)
    (entries : List ExtensionEntry) (found : Option α) : Prop :=
  (∀ e ∈ entries, e.id = id → ∃ a, read e.value = .ok a ∧ found = some a)
    ∧ ((∀ e ∈ entries, e.id ≠ id) → found = none)

section Slot

variable {α : Type} {id : List UInt8} {read : List UInt8 → Except CertError α}
  {seen : Extensions → Bool} {slot : Extensions → Option α}

/-- A slot that is filled stays as it is, and its extension does not come again. Induction on the
list. -/
theorem Fills.of_seen (hfills : Fills id read seen slot) {entries : List ExtensionEntry}
    {s s' : Extensions} (h : s.takeAll entries = .ok s') (hseen : seen s = true) :
    (∀ e ∈ entries, e.id ≠ id) ∧ slot s' = slot s := by
  induction entries generalizing s with
  | nil =>
    cases h
    exact ⟨fun e he => (by cases he), rfl⟩
  | cons e rest ih =>
    obtain ⟨s₁, htake, hrest⟩ := takeAll_cons_eq_ok.mp h
    rcases hfills s e s₁ htake with ⟨-, hfree, -⟩ | ⟨hid, hsame, hslot⟩
    · rw [hseen] at hfree
      cases hfree
    · obtain ⟨hothers, hkept⟩ := ih hrest (hsame.trans hseen)
      exact ⟨List.forall_mem_cons.mpr ⟨hid, hothers⟩, hkept.trans hslot⟩

/-- From a free slot: the extension comes at most once, and the slot holds its value. -/
theorem Fills.of_free (hfills : Fills id read seen slot) {entries : List ExtensionEntry}
    {s s' : Extensions} (h : s.takeAll entries = .ok s') (hfree : seen s = false)
    (hnone : slot s = none) :
    (entries.map (·.id)).count id ≤ 1 ∧ ValueOf id read entries (slot s') := by
  induction entries generalizing s with
  | nil =>
    cases h
    exact ⟨Nat.zero_le _, fun e he => (by cases he), fun _ => hnone⟩
  | cons e rest ih =>
    obtain ⟨s₁, htake, hrest⟩ := takeAll_cons_eq_ok.mp h
    rw [List.map_cons]
    rcases hfills s e s₁ htake with ⟨hid, -, hseen, a, hread, hvalue⟩ | ⟨hid, hsame, hslot⟩
    · -- this is the one: none follows
      obtain ⟨hothers, hkept⟩ := hfills.of_seen hrest hseen
      have hrestCount : (rest.map (·.id)).count id = 0 := by
        rw [List.count_eq_zero, List.mem_map]
        rintro ⟨e', he', hid'⟩
        exact hothers e' he' hid'
      rw [hid, List.count_cons_self, hrestCount]
      refine ⟨Nat.le_refl 1, ?_, fun hnot => absurd hid (hnot e (List.mem_cons_self ..))⟩
      intro e' he' hid'
      rcases List.mem_cons.mp he' with rfl | hmem
      · exact ⟨a, hread, hkept.trans hvalue⟩
      · exact absurd hid' (hothers e' hmem)
    · obtain ⟨hcount, hvalue, habsent⟩ := ih hrest (hsame.trans hfree) (hslot.trans hnone)
      rw [List.count_cons_of_ne hid]
      refine ⟨hcount, ?_, fun hnot => habsent fun e' he' => hnot e' (List.mem_cons_of_mem _ he')⟩
      intro e' he' hid'
      rcases List.mem_cons.mp he' with rfl | hmem
      · exact absurd hid' hid
      · exact hvalue e' hmem hid'

end Slot

theorem takeAll_critical {entries : List ExtensionEntry} {s s' : Extensions}
    (h : s.takeAll entries = .ok s') :
    ∀ e ∈ entries, e.critical = true → e.id = Oid.keyUsage ∨ e.id = Oid.basicConstraints := by
  induction entries generalizing s with
  | nil =>
    intro e he
    cases he
  | cons e rest ih =>
    obtain ⟨s₁, htake, hrest⟩ := takeAll_cons_eq_ok.mp h
    exact List.forall_mem_cons.mpr ⟨take_critical htake, ih hrest⟩

/-! ## The rules

The rules of the RFC against what the marks can see. Two extensions have a mark, and the others
may repeat. -/

/-- The extension list as RFC 5280 §4.2 has it: no extension twice, none critical that is not
acted on, and the certificate says of the two acted on what they say. -/
structure FollowsRfc (entries : List ExtensionEntry) (cert : Certificate) : Prop where
  once : (entries.map (·.id)).Nodup
  critical : ∀ e ∈ entries, e.critical = true →
    e.id = Oid.keyUsage ∨ e.id = Oid.basicConstraints
  keyUsage : ValueOf Oid.keyUsage readKeyUsage entries cert.keyUsage
  basicConstraints :
    ValueOf Oid.basicConstraints readBasicConstraints entries cert.basicConstraints

/-- The extensions no slot is kept for. -/
def untracked (id : List UInt8) : Bool := id ≠ Oid.keyUsage ∧ id ≠ Oid.basicConstraints

/-- No extension other than the two tracked ones stands in the list twice. -/
def OthersOnce (entries : List ExtensionEntry) : Prop :=
  ((entries.map (·.id)).filter untracked).Nodup

/-- **Extension lists and RFC 5280.** The list of a certificate that parses follows the RFC exactly
when no extension the parser does not track repeats. -/
theorem followsRfc_iff {der : List UInt8} {cert : Certificate}
    (h : Certificate.parse der = .ok cert) :
    ∃ entries, Certificate.extensionList der = .ok entries
      ∧ (FollowsRfc entries cert ↔ OthersOnce entries) := by
  obtain ⟨entries, s, hlist, htake, husage, hconstraints⟩ := extensionList_of_parse h
  obtain ⟨husageOnce, husageValue⟩ := fills_keyUsage.of_free htake rfl rfl
  obtain ⟨hconstraintsOnce, hconstraintsValue⟩ := fills_basicConstraints.of_free htake rfl rfl
  refine ⟨entries, hlist, fun hrfc => hrfc.once.filter _, fun hothers => ?_⟩
  refine ⟨?_, takeAll_critical htake, ?_, ?_⟩
  · rw [List.nodup_iff_count]
    intro id
    by_cases hid : id ≠ Oid.keyUsage ∧ id ≠ Oid.basicConstraints
    · have hcount := List.nodup_iff_count.mp hothers id
      have hkept : untracked id = true := decide_eq_true hid
      rwa [List.count_filter hkept] at hcount
    · rw [not_and_or, not_not, not_not] at hid
      rcases hid with rfl | rfl
      · exact husageOnce
      · exact hconstraintsOnce
  · rw [husage]
    exact husageValue
  · rw [hconstraints]
    exact hconstraintsValue

namespace Sample

/-- A leaf with these extensions. -/
def leafWith (extensions : List UInt8) : List UInt8 :=
  tlv Tag.sequence
    (tlv Tag.sequence
        (tlv (Tag.context 0) (tlv Tag.integer [0x02]) ++ tlv Tag.integer [0x01] ++ ecdsa
          ++ name 0x43 ++ validity ++ name 0x4C ++ spki
          ++ tlv (Tag.context 3) (tlv Tag.sequence extensions))
      ++ ecdsa
      ++ tlv Tag.bitString
        (0x00 :: tlv Tag.sequence (tlv Tag.integer [0x01] ++ tlv Tag.integer [0x01])))

def keyIdentifier (byte : UInt8) : List UInt8 :=
  tlv Tag.sequence (tlv Tag.oid Oid.subjectKeyIdentifier ++ tlv Tag.octetString [byte])

def critical (id value : List UInt8) : List UInt8 :=
  tlv Tag.sequence (tlv Tag.oid id ++ tlv Tag.boolean [0xFF] ++ tlv Tag.octetString value)

/-- `digitalSignature`. -/
def signing : List UInt8 := tlv Tag.bitString [0x07, 0x80]

/-- `cA` at its default. -/
def endEntity : List UInt8 := tlv Tag.sequence []

def authorityIdentifier : List UInt8 :=
  tlv Tag.sequence (tlv Tag.oid Oid.authorityKeyIdentifier ++ tlv Tag.octetString [0x03])

/-- A leaf with the two extensions that are tracked, both critical, and two more. -/
def fourExtensions : List UInt8 :=
  leafWith (keyIdentifier 0x01 ++ critical Oid.keyUsage signing
    ++ critical Oid.basicConstraints endEntity ++ authorityIdentifier)

/-- A leaf that names its key twice. -/
def twoKeyIdentifiers : List UInt8 := leafWith (keyIdentifier 0x01 ++ keyIdentifier 0x02)

end Sample

/-- Of four different extensions each stands once, and the list follows the RFC. -/
theorem followsRfc_iff_fourExtensions :
    ∃ cert, Certificate.parse Sample.fourExtensions = .ok cert
      ∧ FollowsRfc [⟨Oid.subjectKeyIdentifier, false, [0x01]⟩,
        ⟨Oid.keyUsage, true, Sample.signing⟩, ⟨Oid.basicConstraints, true, Sample.endEntity⟩,
        ⟨Oid.authorityKeyIdentifier, false, [0x03]⟩] cert := by
  have hok : (Certificate.parse Sample.fourExtensions).toOption.isSome = true := by decide +kernel
  have hread : Certificate.extensionList Sample.fourExtensions
      = .ok [⟨Oid.subjectKeyIdentifier, false, [0x01]⟩,
        ⟨Oid.keyUsage, true, Sample.signing⟩, ⟨Oid.basicConstraints, true, Sample.endEntity⟩,
        ⟨Oid.authorityKeyIdentifier, false, [0x03]⟩] := by
    decide +kernel
  cases h : Certificate.parse Sample.fourExtensions with
  | error e =>
    rw [h] at hok
    cases hok
  | ok cert =>
    obtain ⟨entries, hlist, hiff⟩ := followsRfc_iff h
    rw [hread] at hlist
    cases hlist
    refine ⟨cert, rfl, hiff.mpr ?_⟩
    show (List.filter untracked _).Nodup
    decide

/-- It is accepted, with the extension in its list twice. -/
theorem not_followsRfc_twoKeyIdentifiers :
    ∃ cert entries, Certificate.parse Sample.twoKeyIdentifiers = .ok cert
      ∧ Certificate.extensionList Sample.twoKeyIdentifiers = .ok entries
      ∧ ¬ FollowsRfc entries cert := by
  have hok : (Certificate.parse Sample.twoKeyIdentifiers).toOption.isSome = true := by
    decide +kernel
  have hlist : Certificate.extensionList Sample.twoKeyIdentifiers
      = .ok [⟨Oid.subjectKeyIdentifier, false, [0x01]⟩,
        ⟨Oid.subjectKeyIdentifier, false, [0x02]⟩] := by
    decide +kernel
  cases h : Certificate.parse Sample.twoKeyIdentifiers with
  | error e =>
    rw [h] at hok
    cases hok
  | ok cert =>
    refine ⟨cert, _, rfl, hlist, fun hrfc => ?_⟩
    have hnot : ¬ [Oid.subjectKeyIdentifier, Oid.subjectKeyIdentifier].Nodup := by decide
    exact hnot hrfc.once

end Iso15118.Pnc.Pki
