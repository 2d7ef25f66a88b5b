import Iso15118.Lib.BigEndian
import Iso15118.Pnc.Pki.Cert
import Iso15118.Pnc.Pki.Tlv
import Mathlib.Data.Nat.Bitwise

/-!
# One encoding for a signature value

DER writes a value in one way, and a signature that can be written in two is one somebody other than
its signer can change. The standard's encoding is stated here on its own, as what an encoder puts
out, and compared with what `rawSignature` takes in:

* **`derLength`**, **`integerOctets`**, **`ecdsaSigValue`** — the encoder;
* **`readLength_eq_ok`** — a length is read from its one encoding;
* **`readCoordinate_eq_ok`** — a coordinate is read from its one encoding too, or from a padded one:
  **`PaddedInteger`**;
* **`oneEncoding_iff`** — which signature values have one encoding.
-/

namespace Iso15118.Pnc.Pki

open Iso15118.Lib

/-! ## The encoder

The standard's way to write a signature value, of which there is one for each pair of numbers. -/

/-- The length octets for `n`: the number itself below 128, and otherwise its octets behind one
that counts them. -/
def derLength (n : Nat) : List UInt8 :=
  if n < 0x80 then [UInt8.ofNat n] else UInt8.ofNat (0x80 + (octets n).length) :: octets n

/-- A value: its tag, its length and its contents. -/
def tlv (tag : UInt8) (contents : List UInt8) : List UInt8 :=
  tag :: (derLength contents.length ++ contents)

/-- The contents of a non-negative `INTEGER`: its octets, behind a zero octet where the first of
them has its top bit set, and never none. -/
def integerOctets (n : Nat) : List UInt8 :=
  match octets n with
  | [] => [0x00]
  | first :: rest => if first < 0x80 then first :: rest else 0x00 :: first :: rest

/-- `SEQUENCE { INTEGER r, INTEGER s }`. -/
def ecdsaSigValue (r s : Nat) : List UInt8 :=
  tlv Tag.sequence (tlv Tag.integer (integerOctets r) ++ tlv Tag.integer (integerOctets s))

/-! ## Lengths

A length that reads has no other spelling, since the long form is refused where the short one
would do and so is a leading zero octet. -/

theorem bigEndian_eq (bytes : List UInt8) : bigEndian bytes = ofOctets bytes := by
  induction bytes using List.reverseRecOn with
  | nil => rfl
  | append_singleton bytes b ih =>
    rw [ofOctets_concat, ← ih]
    unfold bigEndian
    rw [List.foldl_append]
    rfl

/-- How many octets a long length counts. -/
theorem count_eq {first : UInt8} (h : ¬ first < 0x80) :
    (first &&& 0x7F).toNat + 0x80 = first.toNat := by
  rw [UInt8.toNat_and]
  have hlt := first.toNat_lt
  rw [UInt8.lt_iff_toNat_lt] at h
  have hand := Nat.and_two_pow_sub_one_eq_mod first.toNat 7
  have hmask : (0x7F : UInt8).toNat = 2 ^ 7 - 1 := rfl
  rw [hmask, hand]
  have hbound : (0x80 : UInt8).toNat = 128 := rfl
  rw [hbound] at h
  omega

/-- A length that is read is written so. -/
theorem derLength_of_readLength {input rest : List UInt8} {n : Nat}
    (h : readLength input = .ok (n, rest)) :
    n < 256 ^ usizeOctets ∧ input = derLength n ++ rest := by
  cases input with
  | nil => cases h
  | cons first after =>
    unfold readLength at h
    simp only at h
    -- the short form, which is the one for its numbers
    by_cases hshort : first < 0x80
    · rw [if_pos hshort] at h
      cases h
      have hbound : first.toNat < 0x80 := UInt8.lt_iff_toNat_lt.mp hshort
      refine ⟨hbound.trans_le (by decide), ?_⟩
      unfold derLength
      rw [if_pos hbound, UInt8.ofNat_toNat]
      rfl
    -- the long form, with no leading zero and nothing the short form could say
    · rw [if_neg hshort] at h
      obtain ⟨-, h⟩ := refuse_eq_ok.mp h
      obtain ⟨-, h⟩ := refuse_eq_ok.mp h
      obtain ⟨hroom, h⟩ := refuse_eq_ok.mp h
      obtain ⟨hzero, h⟩ := refuse_eq_ok.mp h
      obtain ⟨hwide, h⟩ := refuse_eq_ok.mp h
      obtain ⟨hminimal, h⟩ := refuse_eq_ok.mp h
      cases h
      rw [bigEndian_eq] at hminimal ⊢
      have hlen : (after.take (first &&& 0x7F).toNat).length = (first &&& 0x7F).toNat := by
        rw [List.length_take]
        omega
      refine ⟨?_, ?_⟩
      · refine (ofOctets_lt _).trans_le (Nat.pow_le_pow_right (by decide) ?_)
        rw [hlen]
        exact Nat.le_of_not_lt hwide
      · unfold derLength
        rw [if_neg hminimal, octets_ofOctets hzero, hlen, Nat.add_comm, count_eq hshort,
          UInt8.ofNat_toNat, List.cons_append, List.take_append_drop]

/-- The first octet of a long length says how many follow, and is none of the three that are
refused or short. -/
structure CountOctet (count : UInt8) (k : Nat) : Prop where
  long : ¬ count < 0x80
  definite : count ≠ 0x80
  unreserved : count ≠ 0xFF
  count : (count &&& 0x7F).toNat = k

theorem countOctet {k : Nat} (hpos : k ≠ 0) (hle : k ≤ usizeOctets) :
    CountOctet (UInt8.ofNat (0x80 + k)) k := by
  have hwidth : usizeOctets = 8 := rfl
  have hnat : (UInt8.ofNat (0x80 + k)).toNat = 0x80 + k := by
    rw [UInt8.toNat_ofNat', Nat.mod_eq_of_lt (by omega)]
  have hlong : ¬ UInt8.ofNat (0x80 + k) < 0x80 := by
    rw [UInt8.lt_iff_toNat_lt, hnat]
    exact Nat.not_lt.mpr (Nat.le_add_right _ _)
  refine ⟨hlong, ?_, ?_, ?_⟩
  · rw [Ne, ← UInt8.toNat_inj, hnat]
    exact fun h => hpos (Nat.add_eq_left.mp h)
  · rw [Ne, ← UInt8.toNat_inj, hnat]
    show ¬ 0x80 + _ = 0xFF
    omega
  · have hcount := count_eq hlong
    rw [hnat] at hcount
    omega

/-- A length that is written is read back. -/
theorem readLength_derLength {n : Nat} (hn : n < 256 ^ usizeOctets) (rest : List UInt8) :
    readLength (derLength n ++ rest) = .ok (n, rest) := by
  unfold derLength readLength
  by_cases hshort : n < 0x80
  · have hnat : (UInt8.ofNat n).toNat = n := by
      rw [UInt8.toNat_ofNat', Nat.mod_eq_of_lt (by omega)]
    have hlt : UInt8.ofNat n < 0x80 := by
      rw [UInt8.lt_iff_toNat_lt, hnat]
      exact hshort
    rw [if_pos hshort]
    simp only [List.cons_append, List.nil_append]
    rw [if_pos hlt, hnat]
  · have hle : (octets n).length ≤ usizeOctets := length_octets_le_iff.mpr hn
    have hpos : (octets n).length ≠ 0 := by
      rw [Ne, List.length_eq_zero_iff, octets_eq_nil_iff]
      omega
    have hroom : ¬ (octets n ++ rest).length < (octets n).length := by
      rw [List.length_append]
      omega
    obtain ⟨hlong, hdefinite, hunreserved, hcount⟩ := countOctet hpos hle
    rw [if_neg hshort]
    simp only [List.cons_append]
    rw [if_neg hlong, if_neg hdefinite, if_neg hunreserved, hcount, if_neg hroom,
      List.take_left' rfl, List.drop_left' rfl, if_neg (head?_octets n),
      if_neg (not_lt.mpr hle), bigEndian_eq, ofOctets_octets, if_neg hshort]

/-- **A length has one encoding.** -/
theorem readLength_eq_ok {input rest : List UInt8} {n : Nat} :
    readLength input = .ok (n, rest) ↔ n < 256 ^ usizeOctets ∧ input = derLength n ++ rest := by
  constructor
  · exact derLength_of_readLength
  · rintro ⟨hn, rfl⟩
    exact readLength_derLength hn rest

theorem lengthOctets_iff {n : Nat} {bytes : List UInt8} :
    LengthOctets n bytes ↔ n < 256 ^ usizeOctets ∧ bytes = derLength n := by
  constructor
  · intro h
    have hread := readLength_eq_ok.mp (h [])
    rwa [List.append_nil, List.append_nil] at hread
  · rintro ⟨hn, rfl⟩ rest
    exact readLength_eq_ok.mpr ⟨hn, rfl⟩

/-- A value has one encoding. -/
theorem tlv_iff {tag : UInt8} {contents bytes : List UInt8} :
    Tlv tag contents bytes ↔ contents.length < 256 ^ usizeOctets ∧ bytes = tlv tag contents := by
  constructor
  · rintro ⟨octets, hoctets, rfl⟩
    obtain ⟨hlen, rfl⟩ := lengthOctets_iff.mp hoctets
    exact ⟨hlen, rfl⟩
  · rintro ⟨hlen, rfl⟩
    exact ⟨_, lengthOctets_iff.mpr ⟨hlen, rfl⟩, rfl⟩

/-! ## Integers

An integer without a sign: its octets, with a zero in front where the first would be taken for
one. -/

theorem integerOctets_ne_nil (n : Nat) : integerOctets n ≠ [] := by
  unfold integerOctets
  split
  · exact nofun
  · split
    · exact nofun
    · exact nofun

theorem ofOctets_integerOctets (n : Nat) : ofOctets (integerOctets n) = n := by
  unfold integerOctets
  split
  · next h =>
    rw [octets_eq_nil_iff.mp h]
    rfl
  · next first rest h =>
    split
    · rw [← h, ofOctets_octets]
    · rw [ofOctets_zero_cons, ← h, ofOctets_octets]

/-- The first octet carries no sign. -/
theorem head_integerOctets {n : Nat} {first : UInt8} {rest : List UInt8}
    (h : integerOctets n = first :: rest) : first < 0x80 := by
  unfold integerOctets at h
  split at h
  · cases h
    decide
  · split at h
    · next hlow =>
      cases h
      exact hlow
    · cases h
      decide

/-- A zero octet stands in front of one with its top bit set only. -/
theorem second_integerOctets {n : Nat} {second : UInt8} {rest : List UInt8}
    (h : integerOctets n = 0x00 :: second :: rest) : ¬ second < 0x80 := by
  unfold integerOctets at h
  split at h
  · cases h
  · next first rest hoctets =>
    split at h
    · -- the octets of a number do not begin with a zero
      cases h
      have hhead := head?_octets n
      rw [hoctets] at hhead
      exact absurd rfl hhead
    · next hhigh =>
      cases h
      exact hhigh

theorem length_integerOctets_le {n width : Nat} (h : n < 256 ^ width) :
    (integerOctets n).length ≤ width + 1 := by
  have hle := length_octets_le_iff.mpr h
  unfold integerOctets
  split
  · exact Nat.le_add_left 1 width
  · next first rest hoctets =>
    rw [hoctets] at hle
    split
    · exact Nat.le_succ_of_le hle
    · exact Nat.succ_le_succ hle

/-! ## Coordinates

What the reader takes for a coordinate, which is more: it strips one zero octet without asking
whether it was needed. -/

/-- The contents are those of a number that fits the width. -/
def CanonicalInteger (width : Nat) (contents : List UInt8) : Prop :=
  ∃ n, n < 256 ^ width ∧ contents = integerOctets n

/-- The contents begin with a zero octet that the next one, with its top bit clear, does not need,
and are not longer than the width all the same. -/
def PaddedInteger (width : Nat) (contents : List UInt8) : Prop :=
  ∃ second rest, contents = 0x00 :: second :: rest ∧ second < 0x80 ∧ contents.length ≤ width

theorem not_padded_integerOctets {n width : Nat} : ¬ PaddedInteger width (integerOctets n) := by
  rintro ⟨second, rest, hcontents, hlow, -⟩
  exact second_integerOctets hcontents hlow

theorem and_top_eq_zero_iff {b : UInt8} : b &&& 0x80 = 0 ↔ b < 0x80 := by
  have hb := b.toNat_lt
  rw [← UInt8.toNat_inj, UInt8.lt_iff_toNat_lt, UInt8.toNat_and]
  show b.toNat &&& 2 ^ 7 = 0 ↔ b.toNat < 128
  rw [Nat.and_two_pow, Nat.testBit_eq_decide_div_mod_eq]
  by_cases hbit : b.toNat / 2 ^ 7 % 2 = 1
  · rw [decide_eq_true hbit]
    exact iff_of_false (by decide) (by omega)
  · rw [decide_eq_false hbit]
    exact iff_of_true (by decide) (by omega)

/-- The contents are taken for a coordinate. -/
def TakenInteger (width : Nat) (contents : List UInt8) : Prop :=
  CanonicalInteger width contents ∨ PaddedInteger width contents

section Contents

variable {width : Nat} {first second : UInt8} {rest : List UInt8}

theorem octets_of_ne_zero (h : first ≠ 0) : octets (ofOctets (first :: rest)) = first :: rest :=
  octets_ofOctets fun hhead => h (Option.some.inj hhead)

theorem ofOctets_lt_pow {contents : List UInt8} (h : contents.length ≤ width) :
    ofOctets contents < 256 ^ width :=
  (ofOctets_lt contents).trans_le (Nat.pow_le_pow_right (by decide) h)

/-- Behind a zero octet for the sign, what fits the width is taken. -/
theorem taken_signed_iff (h : ¬ second < 0x80) :
    TakenInteger width (0x00 :: second :: rest) ↔ (second :: rest).length ≤ width := by
  have hne : second ≠ 0 := by
    rintro rfl
    exact h (by decide)
  constructor
  · rintro (⟨n, hn, hcontents⟩ | ⟨second', rest', hcontents, hlow, -⟩)
    · have hvalue := congrArg ofOctets hcontents
      rw [ofOctets_zero_cons, ofOctets_integerOctets] at hvalue
      have hoctets : octets (ofOctets (second :: rest)) = second :: rest := octets_of_ne_zero hne
      rw [hvalue] at hoctets
      rw [← hoctets]
      exact length_octets_le_iff.mpr hn
    · cases hcontents
      exact absurd hlow h
  · intro hlen
    refine .inl ⟨ofOctets (second :: rest), ofOctets_lt_pow hlen, ?_⟩
    unfold integerOctets
    rw [octets_of_ne_zero hne]
    exact (if_neg h).symm

/-- Of contents without a sign, and without a zero octet for one, all that fit the width are
taken. -/
theorem taken_unsigned_iff (hw : 0 < width) (hlow : first < 0x80)
    (hsign : ∀ second ∈ rest.head?, first = 0x00 → second < 0x80) :
    TakenInteger width (first :: rest) ↔ (first :: rest).length ≤ width := by
  constructor
  · rintro (⟨n, hn, hcontents⟩ | ⟨second, rest', -, -, hlen⟩)
    · have hle := length_octets_le_iff.mpr hn
      unfold integerOctets at hcontents
      split at hcontents
      · cases hcontents
        exact hw
      · next first' rest' hoctets =>
        split at hcontents
        · cases hcontents
          rwa [hoctets] at hle
        · next hhigh =>
          cases hcontents
          exact absurd (hsign first' rfl rfl) hhigh
    · exact hlen
  · intro hlen
    by_cases hzero : first = 0x00
    · subst hzero
      cases rest with
      | nil =>
        refine .inl ⟨0, Nat.pow_pos (by decide), ?_⟩
        unfold integerOctets
        rw [octets_eq_nil_iff.mpr rfl]
      | cons second rest => exact .inr ⟨second, rest, rfl, hsign second rfl rfl, hlen⟩
    · refine .inl ⟨ofOctets (first :: rest), ofOctets_lt_pow hlen, ?_⟩
      unfold integerOctets
      rw [octets_of_ne_zero hzero]
      exact (if_pos hlow).symm

end Contents

/-- What follows once the octets of the coordinate are known: they are padded to the width, if they
fit it. -/
theorem padded_eq_ok {width : Nat} {value contents bytes : List UInt8} {d d' : Der}
    (hne : value ≠ []) (hvalue : ofOctets value = ofOctets contents)
    (htaken : TakenInteger width contents ↔ value.length ≤ width) :
    (if value.isEmpty ∨ value.length > width then .error .badSignature
      else .ok (List.replicate (width - value.length) 0 ++ value, d) :
        Except CertError (List UInt8 × Der)) = .ok (bytes, d') ↔
    d = d' ∧ TakenInteger width contents ∧ bytes = fixed width (ofOctets contents) := by
  rw [refuse_eq_ok, htaken, ← hvalue]
  constructor
  · rintro ⟨hfits, hpair⟩
    have hle : value.length ≤ width := not_lt.mp fun h => hfits (.inr h)
    cases hpair
    exact ⟨rfl, hle, (fixed_ofOctets hle).symm⟩
  · rintro ⟨rfl, hle, rfl⟩
    refine ⟨?_, by rw [fixed_ofOctets hle]⟩
    rintro (hempty | hlong)
    · exact hne (List.isEmpty_iff.mp hempty)
    · exact absurd hle (not_le.mpr hlong)

/-- **A coordinate is read** from the contents that are taken, as their number in the field's
width. -/
theorem readCoordinate_eq_ok {width : Nat} (hw : 0 < width) {d d' : Der} {bytes : List UInt8} :
    readCoordinate width d = .ok (bytes, d') ↔
      ∃ contents, d.expect Tag.integer = .ok (contents, d') ∧ TakenInteger width contents
        ∧ bytes = fixed width (ofOctets contents) := by
  unfold readCoordinate
  cases hexpect : d.expect Tag.integer with
  | error e =>
    refine iff_of_false nofun ?_
    rintro ⟨contents, hnone, -⟩
    cases hnone
  | ok read =>
    obtain ⟨contents, d₁⟩ := read
    have hread : (∃ contents', (.ok (contents, d₁) : Except DerError _) = .ok (contents', d')
          ∧ TakenInteger width contents' ∧ bytes = fixed width (ofOctets contents')) ↔
        d₁ = d' ∧ TakenInteger width contents ∧ bytes = fixed width (ofOctets contents) := by
      constructor
      · rintro ⟨contents', hsome, htaken, hbytes⟩
        cases hsome
        exact ⟨rfl, htaken, hbytes⟩
      · rintro ⟨rfl, htaken, hbytes⟩
        exact ⟨contents, rfl, htaken, hbytes⟩
    rw [hread]
    dsimp only
    -- an integer has at least one octet
    cases contents with
    | nil =>
      refine iff_of_false nofun ?_
      rintro ⟨-, ⟨n, -, hcontents⟩ | ⟨second, rest, hcontents, -⟩, -⟩
      · exact integerOctets_ne_nil n hcontents.symm
      · cases hcontents
    | cons first rest =>
      dsimp only
      by_cases hsign : first = 0x00 ∧ rest.head?.any (fun b => b &&& 0x80 ≠ 0)
      · -- the zero octet is there for the sign
        obtain ⟨rfl, hany⟩ := hsign
        rw [if_pos ⟨rfl, hany⟩]
        cases rest with
        | nil => cases hany
        | cons second rest =>
          have hhigh : ¬ second < 0x80 := by
            rw [← and_top_eq_zero_iff]
            simpa using hany
          exact padded_eq_ok (List.cons_ne_nil _ _) (ofOctets_zero_cons _).symm
            (taken_signed_iff hhigh)
      · rw [if_neg hsign]
        by_cases hneg : first &&& 0x80 ≠ 0
        · -- a negative number
          rw [if_pos hneg]
          have hhigh : ¬ first < 0x80 := fun h => hneg (and_top_eq_zero_iff.mpr h)
          refine iff_of_false nofun ?_
          rintro ⟨-, ⟨n, -, hcontents⟩ | ⟨second, rest', hcontents, -⟩, -⟩
          · exact hhigh (head_integerOctets hcontents.symm)
          · cases hcontents
            exact hhigh (by decide)
        -- the first octet is the number's own
        · rw [if_neg hneg]
          have hlow := and_top_eq_zero_iff.mp (not_not.mp hneg)
          refine padded_eq_ok (List.cons_ne_nil _ _) rfl (taken_unsigned_iff hw hlow ?_)
          intro second hsecond hzero
          by_contra hhigh
          refine hsign ⟨hzero, ?_⟩
          rw [show rest.head? = some second from hsecond]
          simpa [and_top_eq_zero_iff] using hhigh

/-! ## Signature values

Two integers in a sequence, with nothing behind them. Their contents decide whether the value is
accepted and what comes of it. -/

/-- The bytes of a signature value with these contents in its two integers. -/
def pairOctets (r s : List UInt8) : List UInt8 :=
  tlv Tag.sequence (tlv Tag.integer r ++ tlv Tag.integer s)

theorem Curve.fieldLen_pos (curve : Curve) : 0 < curve.fieldLen := by
  cases curve <;> decide

theorem Curve.fieldLen_le (curve : Curve) : curve.fieldLen ≤ 66 := by
  cases curve <;> decide

theorem TakenInteger.length_le {width : Nat} {contents : List UInt8}
    (h : TakenInteger width contents) : contents.length ≤ width + 1 := by
  rcases h with ⟨n, hn, rfl⟩ | ⟨second, rest, -, -, hlen⟩
  · exact length_integerOctets_le hn
  · exact Nat.le_succ_of_le hlen

theorem length_derLength_le {n : Nat} (h : n < 256 ^ usizeOctets) :
    (derLength n).length ≤ usizeOctets + 1 := by
  unfold derLength
  split
  · exact Nat.le_add_left 1 _
  · exact Nat.succ_le_succ (length_octets_le_iff.mpr h)

/-- Nothing of a signature value is too long for its length. -/
theorem TakenInteger.lt_pow {curve : Curve} {contents : List UInt8}
    (h : TakenInteger curve.fieldLen contents) : contents.length < 256 ^ usizeOctets := by
  have hlen := h.length_le
  have hwidth := curve.fieldLen_le
  calc contents.length ≤ 67 := by omega
    _ < 256 ^ usizeOctets := by decide

theorem length_pair_lt {curve : Curve} {r s : List UInt8} (hr : TakenInteger curve.fieldLen r)
    (hs : TakenInteger curve.fieldLen s) :
    (tlv Tag.integer r ++ tlv Tag.integer s).length < 256 ^ usizeOctets := by
  have hlr := hr.length_le
  have hls := hs.length_le
  have hwidth := curve.fieldLen_le
  have hdr := length_derLength_le hr.lt_pow
  have hds := length_derLength_le hs.lt_pow
  have height : usizeOctets = 8 := rfl
  unfold tlv
  simp only [List.length_append, List.length_cons]
  calc _ ≤ 154 := by omega
    _ < 256 ^ usizeOctets := by decide

/-- **What is accepted**, and what it comes to. -/
theorem rawSignature_eq_ok {der signature : List UInt8} {curve : Curve} :
    rawSignature der curve = .ok signature ↔
      ∃ r s, TakenInteger curve.fieldLen r ∧ TakenInteger curve.fieldLen s
        ∧ der = pairOctets r s
        ∧ signature = fixed curve.fieldLen (ofOctets r) ++ fixed curve.fieldLen (ofOctets s) := by
  have hw := curve.fieldLen_pos
  constructor
  · intro h
    obtain ⟨⟨seq, d⟩, hseq, h⟩ := bind_eq_ok.mp h
    obtain ⟨_, hfinish, h⟩ := bind_eq_ok.mp h
    obtain ⟨⟨rBytes, s₁⟩, hr, h⟩ := bind_eq_ok.mp h
    obtain ⟨⟨sBytes, s₂⟩, hs, h⟩ := bind_eq_ok.mp h
    obtain ⟨_, hend, h⟩ := bind_eq_ok.mp h
    -- two integers, and nothing behind them or behind the pair
    obtain ⟨bytes, hbytes, hder⟩ := Der.nested_eq_ok.mp (mapError_eq_ok.mp hseq)
    obtain ⟨r, hrRead, hrTaken, rfl⟩ := (readCoordinate_eq_ok hw).mp hr
    obtain ⟨s, hsRead, hsTaken, rfl⟩ := (readCoordinate_eq_ok hw).mp hs
    obtain ⟨bytes₁, hbytes₁, hrest₁⟩ := Der.expect_eq_ok.mp hrRead
    obtain ⟨bytes₂, hbytes₂, hrest₂⟩ := Der.expect_eq_ok.mp hsRead
    have hd : d.rest = [] := Der.finish_eq_ok.mp (mapError_eq_ok.mp hfinish)
    have hs₂ : s₂.rest = [] := Der.finish_eq_ok.mp (mapError_eq_ok.mp hend)
    obtain ⟨-, rfl⟩ := tlv_iff.mp hbytes
    obtain ⟨-, rfl⟩ := tlv_iff.mp hbytes₁
    obtain ⟨-, rfl⟩ := tlv_iff.mp hbytes₂
    cases h
    refine ⟨r, s, hrTaken, hsTaken, ?_, rfl⟩
    show der = _
    rw [show der = _ from hder, hd, List.append_nil, hrest₁, hrest₂, hs₂, List.append_nil]
    rfl
  -- the one encoding of the pair is read back
  · rintro ⟨r, s, hr, hs, rfl, rfl⟩
    have hseq : (Der.mk (pairOctets r s)).nested Tag.sequence
        = .ok (⟨tlv Tag.integer r ++ tlv Tag.integer s⟩, ⟨[]⟩) :=
      Der.nested_eq_ok.mpr ⟨_, tlv_iff.mpr ⟨length_pair_lt hr hs, rfl⟩, (List.append_nil _).symm⟩
    have hrRead : (Der.mk (tlv Tag.integer r ++ tlv Tag.integer s)).expect Tag.integer
        = .ok (r, ⟨tlv Tag.integer s⟩) :=
      Der.expect_eq_ok.mpr ⟨_, tlv_iff.mpr ⟨hr.lt_pow, rfl⟩, rfl⟩
    have hsRead : (Der.mk (tlv Tag.integer s)).expect Tag.integer = .ok (s, ⟨[]⟩) :=
      Der.expect_eq_ok.mpr ⟨_, tlv_iff.mpr ⟨hs.lt_pow, rfl⟩, (List.append_nil _).symm⟩
    refine bind_eq_ok.mpr ⟨_, mapError_eq_ok.mpr hseq, bind_eq_ok.mpr ⟨(), rfl, ?_⟩⟩
    refine bind_eq_ok.mpr ⟨_, (readCoordinate_eq_ok hw).mpr ⟨r, hrRead, hr, rfl⟩, ?_⟩
    refine bind_eq_ok.mpr ⟨_, (readCoordinate_eq_ok hw).mpr ⟨s, hsRead, hs, rfl⟩, ?_⟩
    exact bind_eq_ok.mpr ⟨(), rfl, rfl⟩

/-- The contents of the two integers are those of the signature value. -/
theorem pairOctets_inj {curve : Curve} {r s r' s' : List UInt8}
    (hr : TakenInteger curve.fieldLen r) (hs : TakenInteger curve.fieldLen s)
    (hr' : TakenInteger curve.fieldLen r') (hs' : TakenInteger curve.fieldLen s')
    (h : pairOctets r s = pairOctets r' s') : r = r' ∧ s = s' := by
  have hwhole : pairOctets r s ++ [] = pairOctets r' s' ++ [] := congrArg (· ++ []) h
  obtain ⟨-, hpair, -, -⟩ := Tlv.unique (tlv_iff.mpr ⟨length_pair_lt hr hs, rfl⟩)
    (tlv_iff.mpr ⟨length_pair_lt hr' hs', rfl⟩) hwhole
  obtain ⟨-, hfirst, -, hrest⟩ := Tlv.unique (tlv_iff.mpr ⟨hr.lt_pow, rfl⟩)
    (tlv_iff.mpr ⟨hr'.lt_pow, rfl⟩) hpair
  have hlast : tlv Tag.integer s ++ [] = tlv Tag.integer s' ++ [] := congrArg (· ++ []) hrest
  obtain ⟨-, hsecond, -, -⟩ := Tlv.unique (tlv_iff.mpr ⟨hs.lt_pow, rfl⟩)
    (tlv_iff.mpr ⟨hs'.lt_pow, rfl⟩) hlast
  exact ⟨hfirst, hsecond⟩

/-! ## One encoding

The standard's encoding against what is accepted. They part in the padded integers, and nowhere
else. -/

/-- The bytes are the standard's encoding of two numbers that fit the field. -/
def CanonicalSignature (curve : Curve) (der : List UInt8) : Prop :=
  ∃ r s, r < 256 ^ curve.fieldLen ∧ s < 256 ^ curve.fieldLen ∧ der = ecdsaSigValue r s

/-- The bytes are accepted if they are the standard's encoding, and then for the numbers they
encode. -/
structure ReadCanonically (curve : Curve) (der : List UInt8) : Prop where
  accepted : (∃ signature, rawSignature der curve = .ok signature) ↔ CanonicalSignature curve der
  result : ∀ r s, r < 256 ^ curve.fieldLen → s < 256 ^ curve.fieldLen → der = ecdsaSigValue r s →
    rawSignature der curve = .ok (fixed curve.fieldLen r ++ fixed curve.fieldLen s)

/-- Two inputs are each read canonically, and never as the same signature. -/
structure OneEncoding (curve : Curve) (der der' : List UInt8) : Prop where
  first : ReadCanonically curve der
  second : ReadCanonically curve der'
  distinct : der ≠ der' → ∀ signature, rawSignature der curve = .ok signature →
    rawSignature der' curve ≠ .ok signature

/-- One of the two integers begins with a zero octet it does not need, and fits the field
nevertheless. -/
def PaddedSignature (curve : Curve) (der : List UInt8) : Prop :=
  ∃ r s, der = pairOctets r s
    ∧ (PaddedInteger curve.fieldLen r ∧ TakenInteger curve.fieldLen s
      ∨ TakenInteger curve.fieldLen r ∧ PaddedInteger curve.fieldLen s)

theorem rawSignature_ecdsaSigValue {curve : Curve} {r s : Nat} (hr : r < 256 ^ curve.fieldLen)
    (hs : s < 256 ^ curve.fieldLen) :
    rawSignature (ecdsaSigValue r s) curve
      = .ok (fixed curve.fieldLen r ++ fixed curve.fieldLen s) :=
  rawSignature_eq_ok.mpr ⟨integerOctets r, integerOctets s, .inl ⟨r, hr, rfl⟩, .inl ⟨s, hs, rfl⟩,
    rfl, by rw [ofOctets_integerOctets, ofOctets_integerOctets]⟩

/-- A padded signature value is accepted, and is not the standard's encoding of anything. -/
theorem PaddedSignature.not_read {curve : Curve} {der : List UInt8}
    (h : PaddedSignature curve der) : ¬ ReadCanonically curve der := by
  obtain ⟨r, s, rfl, hpadded⟩ := h
  intro hread
  have hr : TakenInteger curve.fieldLen r := hpadded.elim (fun h => .inr h.1) And.left
  have hs : TakenInteger curve.fieldLen s := hpadded.elim And.right fun h => .inr h.2
  obtain ⟨n, m, hn, hm, hbytes⟩ := hread.accepted.mp
    ⟨_, rawSignature_eq_ok.mpr ⟨r, s, hr, hs, rfl, rfl⟩⟩
  obtain ⟨rfl, rfl⟩ := pairOctets_inj hr hs (.inl ⟨n, hn, rfl⟩) (.inl ⟨m, hm, rfl⟩) hbytes
  rcases hpadded with ⟨hpadded, -⟩ | ⟨-, hpadded⟩
  · exact not_padded_integerOctets hpadded
  · exact not_padded_integerOctets hpadded

/-- Nothing else that is accepted is not. -/
theorem readCanonically_of_not_padded {curve : Curve} {der : List UInt8}
    (h : ¬ PaddedSignature curve der) : ReadCanonically curve der where
  accepted := by
    constructor
    · rintro ⟨signature, hok⟩
      obtain ⟨r, s, hr, hs, rfl, -⟩ := rawSignature_eq_ok.mp hok
      rcases hr with ⟨n, hn, rfl⟩ | hpadded
      · rcases hs with ⟨m, hm, rfl⟩ | hpadded
        · exact ⟨n, m, hn, hm, rfl⟩
        · exact absurd ⟨_, s, rfl, .inr ⟨.inl ⟨n, hn, rfl⟩, hpadded⟩⟩ h
      · exact absurd ⟨r, s, rfl, .inl ⟨hpadded, hs⟩⟩ h
    · rintro ⟨r, s, hr, hs, rfl⟩
      exact ⟨_, rawSignature_ecdsaSigValue hr hs⟩
  result := by
    rintro r s hr hs rfl
    exact rawSignature_ecdsaSigValue hr hs

/-- **Signature values have one encoding, but for padded ones.** What is accepted is the standard's
encoding of the numbers in the result, and nothing else gives that result, except that an integer
shorter than the field may begin with zero octets it does not need. -/
theorem oneEncoding_iff (curve : Curve) (der der' : List UInt8) :
    OneEncoding curve der der' ↔ ¬ PaddedSignature curve der ∧ ¬ PaddedSignature curve der' := by
  constructor
  · intro h
    exact ⟨fun hpadded => hpadded.not_read h.first, fun hpadded => hpadded.not_read h.second⟩
  · rintro ⟨hder, hder'⟩
    have hread := readCanonically_of_not_padded hder
    have hread' := readCanonically_of_not_padded hder'
    refine ⟨hread, hread', fun hne signature hok hok' => hne ?_⟩
    obtain ⟨r, s, hr, hs, rfl⟩ := hread.accepted.mp ⟨signature, hok⟩
    obtain ⟨r', s', hr', hs', rfl⟩ := hread'.accepted.mp ⟨signature, hok'⟩
    rw [rawSignature_ecdsaSigValue hr hs] at hok
    rw [rawSignature_ecdsaSigValue hr' hs', ← hok] at hok'
    -- the same octets in the same width are the same numbers
    obtain ⟨hfirst, hsecond⟩ := List.append_inj (Except.ok.inj hok')
      ((length_fixed hr').trans (length_fixed hr).symm)
    have hrr := congrArg ofOctets hfirst
    have hss := congrArg ofOctets hsecond
    rw [ofOctets_fixed, ofOctets_fixed] at hrr hss
    rw [hrr, hss]

/-- The number one with a zero octet in front of it is accepted, and gives what it gives without. -/
theorem not_oneEncoding_padded :
    ¬ OneEncoding .p256 [0x30, 0x06, 0x02, 0x01, 0x01, 0x02, 0x01, 0x02]
      [0x30, 0x07, 0x02, 0x02, 0x00, 0x01, 0x02, 0x01, 0x02] := by
  intro h
  have hsame : rawSignature [0x30, 0x06, 0x02, 0x01, 0x01, 0x02, 0x01, 0x02] .p256
      = .ok (List.replicate 31 0 ++ [1] ++ (List.replicate 31 0 ++ [2])) := by decide +kernel
  exact h.distinct (by decide) _ hsame (by decide +kernel)

end Iso15118.Pnc.Pki
