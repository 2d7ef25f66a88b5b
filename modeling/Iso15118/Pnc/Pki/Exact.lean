import Iso15118.Pnc.Pki.Canonical

/-!
# What the reader accepts, exactly

A length and an integer can be written in many ways, and DER takes the shortest. The ways are stated
here first, without the reader and without an encoder:

* **`DefiniteLength`**, **`IntegerContents`** — all ways to write a length, and an integer;
* **`Shortest`** — the one that is shorter than every other, of which **`shortest_derLength`** and
  **`shortest_integerOctets`** say that there is one;
* **`Der.ReadsToEnd`** — the loop that takes values until none is left;
* **`Der.accepts_exactly`** — what every reader accepts is written in the shortest way, and all of
  it is accepted.
-/

namespace Iso15118.Pnc.Pki

open Iso15118.Lib

/-! ## Ways to write a length and an integer

Stated as relations between bytes and numbers, without regard to who reads or writes them. -/

/-- The length `n` in the definite form: one octet below 128, or an octet that counts the octets
behind it. The count 127 is reserved. -/
inductive DefiniteLength (n : Nat) : List UInt8 → Prop
  | short {first : UInt8} : first < 0x80 → first.toNat = n → DefiniteLength n [first]
  | long {count : UInt8} {bytes : List UInt8} : 0x80 < count → count < 0xFF →
      0x80 + bytes.length = count.toNat → ofOctets bytes = n → DefiniteLength n (count :: bytes)

/-- The number octets stand for when the top bit of the first one is a sign. -/
def twosComplement (bytes : List UInt8) : Int :=
  if ∃ first ∈ bytes.head?, 0x80 ≤ first then ofOctets bytes - 256 ^ bytes.length
  else ofOctets bytes

/-- The contents of an `INTEGER`, padded or not. -/
def IntegerContents (n : Int) (contents : List UInt8) : Prop :=
  contents ≠ [] ∧ twosComplement contents = n

/-- The one way to write a thing that is shorter than every other. -/
def Shortest (P : List UInt8 → Prop) (bytes : List UInt8) : Prop :=
  P bytes ∧ ∀ other, P other → other = bytes ∨ bytes.length < other.length

theorem Shortest.unique {P : List UInt8 → Prop} {bytes bytes' : List UInt8} (h : Shortest P bytes)
    (h' : Shortest P bytes') : bytes = bytes' := by
  rcases h'.2 bytes h.1 with heq | hlt
  · exact heq
  · rcases h.2 bytes' h'.1 with heq | hlt'
    · exact heq.symm
    · exact absurd hlt' (lt_asymm hlt)

/-- A shortest way that is known is the only one. -/
theorem Shortest.iff_eq {P : List UInt8 → Prop} {bytes bytes' : List UInt8} (h : Shortest P bytes) :
    Shortest P bytes' ↔ bytes' = bytes := by
  constructor
  · exact fun h' => h'.unique h
  · rintro rfl
    exact h

/-! ## The shortest length

The short form below 128, and above it a count and no leading zero octet. -/

/-- Octets of a number are at least as many as it takes. -/
theorem length_octets_ofOctets_le (bytes : List UInt8) :
    (octets (ofOctets bytes)).length ≤ bytes.length :=
  length_octets_le_iff.mpr (ofOctets_lt bytes)

/-- The length that is written is one of the definite forms. -/
theorem definite_derLength {n : Nat} (hn : n < 256 ^ usizeOctets) :
    DefiniteLength n (derLength n) := by
  unfold derLength
  by_cases hshort : n < 0x80
  · have hnat : (UInt8.ofNat n).toNat = n := by
      rw [UInt8.toNat_ofNat', Nat.mod_eq_of_lt (by omega)]
    rw [if_pos hshort]
    refine .short ?_ hnat
    rw [UInt8.lt_iff_toNat_lt, hnat]
    exact hshort
  · have hle : (octets n).length ≤ 8 := length_octets_le_iff.mpr hn
    have hpos : (octets n).length ≠ 0 := by
      rw [Ne, List.length_eq_zero_iff, octets_eq_nil_iff]
      omega
    have hnat : (UInt8.ofNat (0x80 + (octets n).length)).toNat = 0x80 + (octets n).length := by
      rw [UInt8.toNat_ofNat', Nat.mod_eq_of_lt (by omega)]
    rw [if_neg hshort]
    refine .long ?_ ?_ hnat.symm (ofOctets_octets n)
    · rw [UInt8.lt_iff_toNat_lt, hnat]
      show 128 < _
      omega
    · rw [UInt8.lt_iff_toNat_lt, hnat]
      show _ < 255
      omega

/-- The length is written in the shortest of its forms. -/
theorem shortest_derLength {n : Nat} (hn : n < 256 ^ usizeOctets) :
    Shortest (DefiniteLength n) (derLength n) := by
  refine ⟨definite_derLength hn, fun other hother => ?_⟩
  unfold derLength
  cases hother with
  | @short first hlow hfirst =>
    have hshort : n < 0x80 := hfirst ▸ UInt8.lt_iff_toNat_lt.mp hlow
    rw [if_pos hshort, ← hfirst, UInt8.ofNat_toNat]
    exact .inl rfl
  | @long count bytes hlow hhigh hcount hbytes =>
    have hpos : 128 < count.toNat := UInt8.lt_iff_toNat_lt.mp hlow
    by_cases hshort : n < 0x80
    · rw [if_pos hshort]
      refine .inr ?_
      show 1 < bytes.length + 1
      omega
    · rw [if_neg hshort]
      have hle := length_octets_ofOctets_le bytes
      rw [hbytes] at hle
      rcases hle.eq_or_lt with heq | hlt
      · -- as many octets, so the same ones
        have hsame : octets n = bytes :=
          eq_of_ofOctets_eq heq (by rw [ofOctets_octets, hbytes])
        rw [hsame, hcount, UInt8.ofNat_toNat]
        exact .inl rfl
      · exact .inr (Nat.succ_lt_succ hlt)

/-! ## The shortest integer

One octet fewer would turn the sign. A number that is not negative has a zero in front exactly if
its first octet has the top bit set. -/

theorem twosComplement_of_low {first : UInt8} {rest : List UInt8} (h : first < 0x80) :
    twosComplement (first :: rest) = ofOctets (first :: rest) := by
  unfold twosComplement
  rw [if_neg]
  rintro ⟨b, hb, hhigh⟩
  cases hb
  exact absurd h (UInt8.not_lt.mpr hhigh)

/-- A number that is not negative has its top bit clear. -/
theorem low_of_twosComplement {n : Nat} {first : UInt8} {rest : List UInt8}
    (h : twosComplement (first :: rest) = n) : first < 0x80 ∧ ofOctets (first :: rest) = n := by
  by_cases hlow : first < 0x80
  · rw [twosComplement_of_low hlow] at h
    exact ⟨hlow, Int.ofNat.inj h⟩
  · unfold twosComplement at h
    rw [if_pos ⟨first, rfl, UInt8.not_lt.mp hlow⟩] at h
    have hlt : (ofOctets (first :: rest) : Int) < 256 ^ (first :: rest).length := by
      exact_mod_cast ofOctets_lt (first :: rest)
    omega

theorem contents_integerOctets (n : Nat) : IntegerContents n (integerOctets n) := by
  refine ⟨integerOctets_ne_nil n, ?_⟩
  obtain ⟨first, rest, hcons⟩ := List.exists_cons_of_ne_nil (integerOctets_ne_nil n)
  rw [hcons, twosComplement_of_low (head_integerOctets hcons), ← hcons, ofOctets_integerOctets]

/-- A number is written in as few octets as its sign allows. -/
theorem shortest_integerOctets (n : Nat) : Shortest (IntegerContents n) (integerOctets n) := by
  refine ⟨contents_integerOctets n, ?_⟩
  rintro other ⟨hne, hother⟩
  obtain ⟨first, rest, rfl⟩ := List.exists_cons_of_ne_nil hne
  obtain ⟨hlow, hvalue⟩ := low_of_twosComplement hother
  have hle := length_octets_ofOctets_le (first :: rest)
  rw [hvalue] at hle
  have hshorter : (integerOctets n).length ≤ (first :: rest).length := by
    unfold integerOctets
    split
    · exact Nat.succ_le_succ (Nat.zero_le _)
    · next first' rest' hoctets =>
      rw [hoctets] at hle
      split
      · exact hle
      · next hhigh =>
        -- as many octets would be the same ones, and these have a sign
        refine Nat.lt_of_le_of_ne hle fun heq => hhigh ?_
        have hsame : first' :: rest' = first :: rest :=
          eq_of_ofOctets_eq heq (by rw [← hoctets, ofOctets_octets, hvalue])
        rw [(List.cons.inj hsame).1]
        exact hlow
  rcases hshorter.eq_or_lt with heq | hlt
  · exact .inl (eq_of_ofOctets_eq heq (by rw [ofOctets_integerOctets, hvalue])).symm
  · exact .inr hlt

/-- Contents without a sign, in which a zero octet stands in front only where it has to. -/
theorem integerOctets_ofOctets {first : UInt8} {rest : List UInt8} (hlow : first < 0x80)
    (hpad : first = 0x00 → ∀ second ∈ rest.head?, ¬ second < 0x80) :
    integerOctets (ofOctets (first :: rest)) = first :: rest := by
  by_cases hzero : first = 0x00
  · subst hzero
    rw [ofOctets_zero_cons]
    unfold integerOctets
    cases rest with
    | nil => rw [ofOctets_nil, octets_eq_nil_iff.mpr rfl]
    | cons second rest =>
      have hhigh := hpad rfl second rfl
      have hne : second ≠ 0x00 := by
        rintro rfl
        exact hhigh (by decide)
      rw [octets_of_ne_zero hne]
      exact if_neg hhigh
  · unfold integerOctets
    rw [octets_of_ne_zero hzero]
    exact if_pos hlow

/-- Without a zero octet in front, the contents are the octets of the number. -/
theorem octets_of_integerOctets {n : Nat} {first : UInt8} {rest : List UInt8}
    (h : integerOctets n = first :: rest) :
    octets n = if first = 0x00 then rest else first :: rest := by
  unfold integerOctets at h
  split at h
  · next hoctets =>
    cases h
    rw [hoctets]
    rfl
  · next first' rest' hoctets =>
    split at h
    · cases h
      have hne : first ≠ 0x00 := by
        rintro rfl
        exact head?_octets n (by rw [hoctets]; rfl)
      rw [if_neg hne, hoctets]
    · cases h
      rw [if_pos rfl, hoctets]

namespace Der

/-- The reader takes the one encoding of a number below `2 ^ 32`, and no other octets. -/
theorem smallUint_eq_ok {d d' : Der} {n : Nat} :
    d.smallUint = .ok (n, d') ↔
      n < 2 ^ 32 ∧ d.expect Tag.integer = .ok (integerOctets n, d') := by
  have hpow : (2 : Nat) ^ 32 = 256 ^ 4 := by decide
  unfold smallUint
  rw [hpow, bind_eq_ok]
  constructor
  -- what was read has no padding and no sign, so it is the encoding of its value
  · rintro ⟨⟨contents, d₁⟩, hexpect, h⟩
    cases contents with
    | nil => cases h
    | cons first rest =>
      obtain ⟨hpadded, h⟩ := refuse_eq_ok.mp h
      obtain ⟨hsign, h⟩ := refuse_eq_ok.mp h
      obtain ⟨hwide, h⟩ := refuse_eq_ok.mp h
      cases h
      have hlow := and_top_eq_zero_iff.mp (not_not.mp hsign)
      have hpad : first = 0x00 → ∀ second ∈ rest.head?, ¬ second < 0x80 := by
        intro hzero second hsecond hclear
        refine hpadded ⟨hzero, ?_⟩
        rw [show rest.head? = some second from hsecond]
        simpa [and_top_eq_zero_iff] using hclear
      have hvalue : bigEndian (if first = 0x00 then rest else first :: rest)
          = ofOctets (first :: rest) := by
        rw [bigEndian_eq]
        split
        · next hzero => rw [hzero, ofOctets_zero_cons]
        · rfl
      refine ⟨?_, ?_⟩
      · rw [bigEndian_eq]
        exact ofOctets_lt_pow (not_lt.mp hwide)
      · rw [hvalue, integerOctets_ofOctets hlow hpad]
        exact hexpect
  -- the encoding of a number passes each check
  · rintro ⟨hn, hexpect⟩
    refine ⟨_, hexpect, ?_⟩
    obtain ⟨first, rest, hcons⟩ := List.exists_cons_of_ne_nil (integerOctets_ne_nil n)
    have hlow := head_integerOctets hcons
    have hoctets := octets_of_integerOctets hcons
    have hshort := length_octets_le_iff.mpr hn
    rw [hcons]
    refine refuse_eq_ok.mpr ⟨?_, refuse_eq_ok.mpr ⟨?_, refuse_eq_ok.mpr ⟨?_, ?_⟩⟩⟩
    · rintro ⟨rfl, hany⟩
      cases rest with
      | nil => cases hany
      | cons second rest =>
        refine second_integerOctets hcons ?_
        simpa [and_top_eq_zero_iff] using hany
    · exact not_not.mpr (and_top_eq_zero_iff.mpr hlow)
    · rw [← hoctets]
      exact not_lt.mpr hshort
    · rw [← hoctets, bigEndian_eq, ofOctets_octets]

/-- The values up to the end, one after the other, as the bytes they were read from. -/
inductive ReadsToEnd : Der → List (List UInt8) → Prop
  | done {d : Der} : d.isEmpty = true → ReadsToEnd d []
  | next {d d' : Der} {tag : UInt8} {raw contents : List UInt8} {pieces : List (List UInt8)} :
      d.isEmpty = false → d.anyRaw = .ok (tag, raw, contents, d') → ReadsToEnd d' pieces →
      ReadsToEnd d (raw :: pieces)

/-- Reading to the end gives the pieces the octets are made of, and leaves none. -/
theorem readsToEnd_iff {d : Der} {pieces : List (List UInt8)} :
    d.ReadsToEnd pieces ↔
      d.rest = pieces.flatten ∧ ∀ piece ∈ pieces, ∃ tag contents, Tlv tag contents piece := by
  constructor
  · intro h
    induction h with
    | done hempty => exact ⟨List.isEmpty_iff.mp hempty, fun _ h => by cases h⟩
    | next _ hraw _ ih =>
      obtain ⟨htlv, hrest⟩ := anyRaw_eq_ok.mp hraw
      rw [hrest, ih.1]
      exact ⟨rfl, List.forall_mem_cons.mpr ⟨⟨_, _, htlv⟩, ih.2⟩⟩
  · rintro ⟨hrest, hpieces⟩
    induction pieces generalizing d with
    | nil => exact .done (List.isEmpty_iff.mpr hrest)
    | cons piece pieces ih =>
      obtain ⟨⟨tag, contents, htlv⟩, hpieces⟩ := List.forall_mem_cons.mp hpieces
      have hempty : d.isEmpty = false := by
        obtain ⟨octets, -, rfl⟩ := htlv
        unfold isEmpty
        rw [hrest]
        rfl
      exact .next hempty (anyRaw_eq_ok.mpr ⟨htlv, hrest⟩) (ih (d := ⟨pieces.flatten⟩) rfl hpieces)

end Der

/-- The bytes a reader is made over. They are a slice, whose length is a `usize`. -/
structure Slice where
  bytes : List UInt8
  fits : bytes.length < 256 ^ usizeOctets

/-- Contents that are part of a slice have a length that is read. -/
theorem Slice.fits_of_le {input : Slice} {tag : UInt8} {length contents : List UInt8}
    (h : (tag :: (length ++ contents)).length ≤ input.bytes.length) :
    contents.length < 256 ^ usizeOctets := by
  refine lt_of_le_of_lt ?_ input.fits
  rw [List.length_cons, List.length_append] at h
  omega

/-- A value is a tag, the shortest length and the contents. -/
theorem tlv_shortest_iff {tag : UInt8} {contents bytes : List UInt8}
    (hfits : contents.length < 256 ^ usizeOctets) :
    Tlv tag contents bytes ↔ ∃ length, Shortest (DefiniteLength contents.length) length
      ∧ bytes = tag :: (length ++ contents) := by
  rw [tlv_iff]
  constructor
  · rintro ⟨-, rfl⟩
    exact ⟨_, shortest_derLength hfits, rfl⟩
  · rintro ⟨length, hshortest, rfl⟩
    rw [(shortest_derLength hfits).iff_eq.mp hshortest]
    exact ⟨hfits, rfl⟩

theorem any_slice_iff {input : Slice} {tag : UInt8} {contents rest : List UInt8} :
    (Der.mk input.bytes).any = .ok (tag, contents, ⟨rest⟩) ↔
      ∃ length, Shortest (DefiniteLength contents.length) length
        ∧ input.bytes = tag :: (length ++ (contents ++ rest)) := by
  rw [Der.any_eq_ok]
  constructor
  · rintro ⟨bytes, htlv, hrest⟩
    obtain ⟨length, hshortest, rfl⟩ := (tlv_shortest_iff (tlv_iff.mp htlv).1).mp htlv
    exact ⟨length, hshortest, by simpa using hrest⟩
  · rintro ⟨length, hshortest, hrest⟩
    have hsplit : input.bytes = tag :: (length ++ contents) ++ rest := by simpa using hrest
    have hfits : contents.length < 256 ^ usizeOctets := by
      apply input.fits_of_le
      rw [hsplit, List.length_append]
      exact Nat.le_add_right _ _
    exact ⟨_, (tlv_shortest_iff hfits).mpr ⟨length, hshortest, rfl⟩, hsplit⟩

theorem anyRaw_slice_iff {input : Slice} {tag : UInt8} {raw contents rest : List UInt8} :
    (Der.mk input.bytes).anyRaw = .ok (tag, raw, contents, ⟨rest⟩) ↔
      (Der.mk input.bytes).any = .ok (tag, contents, ⟨rest⟩) ∧ input.bytes = raw ++ rest := by
  rw [Der.anyRaw_eq_ok, Der.any_eq_ok]
  constructor
  · rintro ⟨htlv, hrest⟩
    exact ⟨⟨raw, htlv, hrest⟩, hrest⟩
  · rintro ⟨⟨bytes, htlv, hrest⟩, hraw⟩
    have hsame : bytes ++ rest = raw ++ rest := hrest.symm.trans hraw
    rw [← List.append_cancel_right hsame]
    exact ⟨htlv, hrest⟩

theorem smallUint_slice_iff {input : Slice} {n : Nat} {rest : List UInt8} :
    (Der.mk input.bytes).smallUint = .ok (n, ⟨rest⟩) ↔ n < 2 ^ 32 ∧ ∃ contents,
      Shortest (IntegerContents n) contents
        ∧ (Der.mk input.bytes).any = .ok (Tag.integer, contents, ⟨rest⟩) := by
  rw [Der.smallUint_eq_ok, Der.expect_eq_ok, ← Der.any_eq_ok]
  simp only [(shortest_integerOctets n).iff_eq, exists_eq_left]

theorem readsToEnd_slice_iff {input : Slice} {pieces : List (List UInt8)} :
    (Der.mk input.bytes).ReadsToEnd pieces ↔
      input.bytes = pieces.flatten ∧ ∀ piece ∈ pieces, ∃ tag contents length,
        Shortest (DefiniteLength contents.length) length ∧ piece = tag :: (length ++ contents) := by
  rw [Der.readsToEnd_iff]
  refine and_congr_right fun hflatten => forall₂_congr fun piece hpiece => ?_
  constructor
  · rintro ⟨tag, contents, htlv⟩
    exact ⟨tag, contents, (tlv_shortest_iff (tlv_iff.mp htlv).1).mp htlv⟩
  · rintro ⟨tag, contents, length, hshortest, rfl⟩
    have hfits : contents.length < 256 ^ usizeOctets := by
      apply input.fits_of_le
      rw [show input.bytes = pieces.flatten from hflatten]
      exact (List.sublist_flatten_of_mem hpiece).length_le
    exact ⟨tag, contents, (tlv_shortest_iff hfits).mpr ⟨length, hshortest, rfl⟩⟩

/-- **Exactly the shortest encodings.** A reader over a slice takes a value where it begins with a
tag, the shortest length and the contents, and nothing else; the encoding it hands back is what it
took; a small number is taken in its shortest contents, and every one is; and the values that are
read up to the end are the slice. -/
theorem Der.accepts_exactly (input : Slice) :
    (∀ tag contents rest, (Der.mk input.bytes).any = .ok (tag, contents, ⟨rest⟩) ↔
      ∃ length, Shortest (DefiniteLength contents.length) length
        ∧ input.bytes = tag :: (length ++ (contents ++ rest)))
      ∧ (∀ tag raw contents rest,
        (Der.mk input.bytes).anyRaw = .ok (tag, raw, contents, ⟨rest⟩) ↔
          (Der.mk input.bytes).any = .ok (tag, contents, ⟨rest⟩) ∧ input.bytes = raw ++ rest)
      ∧ (∀ n rest, (Der.mk input.bytes).smallUint = .ok (n, ⟨rest⟩) ↔ n < 2 ^ 32 ∧ ∃ contents,
        Shortest (IntegerContents n) contents
          ∧ (Der.mk input.bytes).any = .ok (Tag.integer, contents, ⟨rest⟩))
      ∧ ∀ pieces, (Der.mk input.bytes).ReadsToEnd pieces ↔
        input.bytes = pieces.flatten ∧ ∀ piece ∈ pieces, ∃ tag contents length,
          Shortest (DefiniteLength contents.length) length
            ∧ piece = tag :: (length ++ contents) :=
  ⟨fun _ _ _ => any_slice_iff, fun _ _ _ _ => anyRaw_slice_iff, fun _ _ => smallUint_slice_iff,
    fun _ => readsToEnd_slice_iff⟩

end Iso15118.Pnc.Pki
