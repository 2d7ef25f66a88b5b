import Iso15118.Pnc.Pki.Der

/-!
# The bytes of a DER value

What the reader of `Pnc.Pki.Der` consumes, as the bytes it consumed: a value is a tag, a length
in its one form and the contents, and a reader that succeeds has split such a value off the front.

* **`Tlv`** — the bytes of one value;
* **`Wraps`**, **`Spelled`**, **`Each`**, **`Maybe`** — the shapes a grammar of values is put
  together from: contents under a tag, values in a row, a list of them, an optional one;
* **`Der.any_eq_ok`**, **`Der.expect_eq_ok`**, **`Der.nested_eq_ok`** — what a read value says of
  the bytes, and the other way round.
-/

namespace Iso15118.Pnc.Pki

open Iso15118.Lib

/-! ## One value

A reader that succeeds has split a value off the front, and the split is unique. -/

/-- The octets spell the length `n`, whatever follows them. -/
def LengthOctets (n : Nat) (octets : List UInt8) : Prop :=
  ∀ rest, readLength (octets ++ rest) = .ok (n, rest)

/-- The bytes of one value: its tag, its length and its contents. -/
def Tlv (tag : UInt8) (contents bytes : List UInt8) : Prop :=
  ∃ octets, LengthOctets contents.length octets ∧ bytes = tag :: (octets ++ contents)

theorem Tlv.head? {tag : UInt8} {contents bytes : List UInt8} (h : Tlv tag contents bytes)
    (rest : List UInt8) : (bytes ++ rest).head? = some tag := by
  obtain ⟨octets, -, rfl⟩ := h
  rfl

/-- A length that was read ends where what is left begins, and its octets read the same in front
of anything else. -/
theorem lengthOctets_of_readLength {input rest : List UInt8} {n : Nat}
    (h : readLength input = .ok (n, rest)) :
    ∃ octets, input = octets ++ rest ∧ LengthOctets n octets := by
  unfold readLength at h
  cases input with
  | nil => cases h
  | cons first after =>
    simp only at h
    -- the short form is one octet
    by_cases hshort : first < 0x80
    · rw [if_pos hshort] at h
      cases h
      refine ⟨[first], rfl, fun rest => ?_⟩
      unfold readLength
      simp only [List.cons_append, List.nil_append]
      rw [if_pos hshort]
    · rw [if_neg hshort] at h
      -- the long form: none of the refusals applied
      obtain ⟨hindefinite, h⟩ := refuse_eq_ok.mp h
      obtain ⟨hreserved, h⟩ := refuse_eq_ok.mp h
      obtain ⟨hlen, h⟩ := refuse_eq_ok.mp h
      obtain ⟨hzero, h⟩ := refuse_eq_ok.mp h
      obtain ⟨hwide, h⟩ := refuse_eq_ok.mp h
      obtain ⟨hminimal, h⟩ := refuse_eq_ok.mp h
      have hpair := Except.ok.inj h
      obtain ⟨hn, hrest⟩ := Prod.mk.inj hpair
      refine ⟨first :: after.take (first &&& 0x7F).toNat, ?_, fun tail => ?_⟩
      · rw [List.cons_append, ← hrest, List.take_append_drop]
      · have hcount : (after.take (first &&& 0x7F).toNat).length = (first &&& 0x7F).toNat := by
          rw [List.length_take]
          omega
        have htake : (after.take (first &&& 0x7F).toNat ++ tail).take (first &&& 0x7F).toNat
            = after.take (first &&& 0x7F).toNat := List.take_left' hcount
        have hdrop : (after.take (first &&& 0x7F).toNat ++ tail).drop (first &&& 0x7F).toNat
            = tail := List.drop_left' hcount
        have hroom : ¬ (after.take (first &&& 0x7F).toNat ++ tail).length
            < (first &&& 0x7F).toNat := by
          rw [List.length_append, hcount]
          omega
        -- the same conditions, on the octets alone
        unfold readLength
        simp only [List.cons_append]
        rw [if_neg hshort, if_neg hindefinite, if_neg hreserved, if_neg hroom, htake, hdrop,
          if_neg hzero, if_neg hwide, if_neg hminimal, hn]

namespace Der

/-- **What a value read is.** Its bytes stand at the front, and what is left is behind them. -/
theorem any_eq_ok {d d' : Der} {tag : UInt8} {contents : List UInt8} :
    d.any = .ok (tag, contents, d')
      ↔ ∃ bytes, Tlv tag contents bytes ∧ d.rest = bytes ++ d'.rest := by
  constructor
  · intro h
    unfold any at h
    cases hrest : d.rest with
    | nil =>
      rw [hrest] at h
      cases h
    | cons first afterTag =>
      rw [hrest] at h
      obtain ⟨⟨len, afterLen⟩, hlen, h⟩ := bind_eq_ok.mp h
      obtain ⟨hroom, h⟩ := refuse_eq_ok.mp h
      obtain ⟨octets, hsplit, hoctets⟩ := lengthOctets_of_readLength hlen
      cases h
      refine ⟨tag :: (octets ++ afterLen.take len), ⟨octets, ?_, rfl⟩, ?_⟩
      · rw [List.length_take, Nat.min_eq_left (by omega)]
        exact hoctets
      · show tag :: afterTag = tag :: (octets ++ afterLen.take len) ++ afterLen.drop len
        rw [List.cons_append, List.append_assoc, List.take_append_drop, hsplit]
  · rintro ⟨bytes, ⟨octets, hoctets, rfl⟩, hrest⟩
    unfold any
    rw [hrest]
    simp only [List.cons_append, List.append_assoc]
    have hlen := hoctets (contents ++ d'.rest)
    refine bind_eq_ok.mpr ⟨_, hlen, refuse_eq_ok.mpr ⟨?_, ?_⟩⟩
    · rw [List.length_append]
      omega
    · rw [List.take_left', List.drop_left'] <;> rfl

theorem finish_eq_ok {d : Der} : d.finish = .ok () ↔ d.rest = [] := by
  unfold finish isEmpty
  rw [require_eq_ok]
  simp

theorem expect_eq_ok {d d' : Der} {tag : UInt8} {contents : List UInt8} :
    d.expect tag = .ok (contents, d')
      ↔ ∃ bytes, Tlv tag contents bytes ∧ d.rest = bytes ++ d'.rest := by
  unfold expect
  rw [← any_eq_ok, bind_eq_ok]
  constructor
  · rintro ⟨⟨found, contents', d''⟩, hany, h⟩
    obtain ⟨htag, h⟩ := require_eq_ok.mp h
    have htag : found = tag := htag
    cases h
    rw [← htag]
    exact hany
  · intro hany
    exact ⟨_, hany, require_eq_ok.mpr ⟨rfl, rfl⟩⟩

theorem nested_eq_ok {d d' item : Der} {tag : UInt8} :
    d.nested tag = .ok (item, d')
      ↔ ∃ bytes, Tlv tag item.rest bytes ∧ d.rest = bytes ++ d'.rest := by
  unfold nested
  rw [← expect_eq_ok, bind_eq_ok]
  constructor
  · rintro ⟨⟨contents, d''⟩, hexpect, h⟩
    cases h
    exact hexpect
  · intro hexpect
    exact ⟨_, hexpect, rfl⟩

/-- An optional value was either read, or was not the next one. -/
theorem optional_eq_ok {d d' : Der} {tag : UInt8} {found : Option (List UInt8)} :
    d.optional tag = .ok (found, d')
      ↔ (∃ contents, found = some contents ∧ ∃ bytes, Tlv tag contents bytes
          ∧ d.rest = bytes ++ d'.rest)
        ∨ (found = none ∧ d' = d ∧ d.rest.head? ≠ some tag) := by
  unfold optional peek
  by_cases hpeek : d.rest.head? = some tag
  · rw [if_pos hpeek, bind_eq_ok]
    constructor
    · rintro ⟨⟨contents, d''⟩, hexpect, h⟩
      cases h
      exact .inl ⟨contents, rfl, expect_eq_ok.mp hexpect⟩
    · rintro (⟨contents, rfl, hbytes⟩ | ⟨-, -, hnot⟩)
      · exact ⟨(contents, d'), expect_eq_ok.mpr hbytes, rfl⟩
      · exact absurd hpeek hnot
  · rw [if_neg hpeek]
    constructor
    · intro h
      cases h
      exact .inr ⟨rfl, rfl, hpeek⟩
    · rintro (⟨contents, -, bytes, htlv, hrest⟩ | ⟨rfl, rfl, -⟩)
      · exact absurd (hrest ▸ htlv.head? d'.rest) hpeek
      · rfl

/-- The reader takes one element, whatever its tag, and leaves what is behind it. -/
theorem anyRaw_eq_ok {d d' : Der} {tag : UInt8} {bytes contents : List UInt8} :
    d.anyRaw = .ok (tag, bytes, contents, d')
      ↔ Tlv tag contents bytes ∧ d.rest = bytes ++ d'.rest := by
  unfold anyRaw
  rw [bind_eq_ok]
  constructor
  · rintro ⟨⟨tag', contents', d''⟩, hany, h⟩
    obtain ⟨bytes', htlv, hrest⟩ := any_eq_ok.mp hany
    cases h
    have hraw : d.rest.take (d.rest.length - d'.rest.length) = bytes' := by
      rw [hrest, List.length_append, Nat.add_sub_cancel]
      exact List.take_left' rfl
    simp only [hraw]
    exact ⟨htlv, hrest⟩
  · rintro ⟨htlv, hrest⟩
    refine ⟨_, any_eq_ok.mpr ⟨bytes, htlv, hrest⟩, ?_⟩
    have hraw : d.rest.take (d.rest.length - d'.rest.length) = bytes := by
      rw [hrest, List.length_append, Nat.add_sub_cancel]
      exact List.take_left' rfl
    simp only [hraw]
    rfl

end Der

/-- Two values at the front of the same bytes are one and the same. -/
theorem Tlv.unique {tag tag' : UInt8} {contents contents' bytes bytes' rest rest' : List UInt8}
    (h : Tlv tag contents bytes) (h' : Tlv tag' contents' bytes')
    (heq : bytes ++ rest = bytes' ++ rest') :
    tag = tag' ∧ contents = contents' ∧ bytes = bytes' ∧ rest = rest' := by
  have hread : (Der.mk (bytes ++ rest)).any = .ok (tag, contents, ⟨rest⟩) :=
    Der.any_eq_ok.mpr ⟨bytes, h, rfl⟩
  have hread' : (Der.mk (bytes ++ rest)).any = .ok (tag', contents', ⟨rest'⟩) :=
    Der.any_eq_ok.mpr ⟨bytes', h', heq⟩
  rw [hread] at hread'
  cases hread'
  exact ⟨rfl, rfl, List.append_cancel_right heq, rfl⟩

/-! ## Shapes of values

What the values of a certificate are made of, as languages of byte strings. -/

/-- A language of byte strings. -/
abbrev Shape := List UInt8 → Prop

/-- One value under `tag` whose contents have the shape. -/
def Wraps (tag : UInt8) (inner : Shape) : Shape := fun bytes =>
  ∃ contents, Tlv tag contents bytes ∧ inner contents

/-- One value under `tag`, whatever it contains. -/
def Primitive (tag : UInt8) : Shape := Wraps tag fun _ => True

/-- One value under any tag, whose contents have the shape. -/
def Tagged (inner : Shape) : Shape := fun bytes => ∃ tag, Wraps tag inner bytes

/-- The shapes in a row, with nothing between them and nothing after. -/
def Spelled : List Shape → Shape
  | [], bytes => bytes = []
  | shape :: shapes, bytes =>
    ∃ first rest, bytes = first ++ rest ∧ shape first ∧ Spelled shapes rest

/-- Any number of one shape, with nothing between them and nothing after. -/
def Each (shape : Shape) : Shape := fun bytes =>
  ∃ items : List (List UInt8), bytes = items.flatten ∧ ∀ item ∈ items, shape item

/-- The shape, or nothing. -/
def Maybe (shape : Shape) : Shape := fun bytes => bytes = [] ∨ shape bytes

theorem Each.nil (shape : Shape) : Each shape [] := ⟨[], rfl, fun _ h => by cases h⟩

theorem Each.cons {shape : Shape} {item rest : List UInt8} (hitem : shape item)
    (hrest : Each shape rest) : Each shape (item ++ rest) := by
  obtain ⟨items, rfl, hitems⟩ := hrest
  refine ⟨item :: items, rfl, ?_⟩
  exact List.forall_mem_cons.mpr ⟨hitem, hitems⟩

end Iso15118.Pnc.Pki
