import Mathlib.Data.Nat.Digits.Lemmas

/-!
# Numbers as octets, most significant first

* **`octets`** — the octets of a number, none of them a leading zero, and **`ofOctets`** — the
  number of any octets;
* **`octets_ofOctets`** — octets without a leading zero are those of their number;
* **`fixed`** — a number in a given width, with **`fixed_ofOctets`**: any octets of it, padded to
  that width, are the same.
-/

namespace Iso15118.Lib

/-- The octets of `n`, as many as it takes. -/
def octets (n : Nat) : List UInt8 := ((Nat.digits 256 n).reverse).map UInt8.ofNat

def ofOctets (bytes : List UInt8) : Nat := Nat.ofDigits 256 (bytes.reverse.map UInt8.toNat)

theorem lt_of_mem_map_toNat (bytes : List UInt8) : ∀ d ∈ bytes.map UInt8.toNat, d < 256 := by
  intro d hd
  obtain ⟨b, -, rfl⟩ := List.mem_map.mp hd
  exact b.toNat_lt

theorem map_toNat_octets (n : Nat) : (octets n).map UInt8.toNat = (Nat.digits 256 n).reverse := by
  unfold octets
  rw [List.map_map]
  refine (List.map_congr_left fun d hd => ?_).trans (List.map_id _)
  have hlt := Nat.digits_lt_base (by decide : 1 < 256) (List.mem_reverse.mp hd)
  exact Nat.mod_eq_of_lt hlt

@[simp] theorem ofOctets_octets (n : Nat) : ofOctets (octets n) = n := by
  unfold ofOctets
  rw [List.map_reverse, map_toNat_octets, List.reverse_reverse, Nat.ofDigits_digits]

@[simp] theorem ofOctets_nil : ofOctets [] = 0 := rfl

theorem ofOctets_concat (bytes : List UInt8) (b : UInt8) :
    ofOctets (bytes ++ [b]) = ofOctets bytes * 256 + b.toNat := by
  unfold ofOctets
  rw [List.reverse_append, List.map_append]
  show Nat.ofDigits 256 (b.toNat :: bytes.reverse.map UInt8.toNat) = _
  rw [Nat.ofDigits_cons]
  omega

/-- Leading zeros add nothing. -/
@[simp] theorem ofOctets_replicate_append (k : Nat) (bytes : List UInt8) :
    ofOctets (List.replicate k 0 ++ bytes) = ofOctets bytes := by
  unfold ofOctets
  rw [List.reverse_append, List.reverse_replicate, List.map_append, List.map_replicate]
  exact Nat.ofDigits_append_replicate_zero _

theorem ofOctets_zero_cons (bytes : List UInt8) : ofOctets (0 :: bytes) = ofOctets bytes :=
  ofOctets_replicate_append 1 bytes

theorem ofOctets_lt (bytes : List UInt8) : ofOctets bytes < 256 ^ bytes.length := by
  have h := Nat.ofDigits_lt_base_pow_length (by decide : 1 < 256)
    (lt_of_mem_map_toNat bytes.reverse)
  rwa [List.length_map, List.length_reverse] at h

theorem length_octets_le_iff {n k : Nat} : (octets n).length ≤ k ↔ n < 256 ^ k := by
  unfold octets
  rw [List.length_map, List.length_reverse]
  exact Nat.digits_length_le_iff (by decide) n

/-- Octets of the same number and in the same width are the same. -/
theorem eq_of_ofOctets_eq {bytes bytes' : List UInt8} (hlen : bytes.length = bytes'.length)
    (h : ofOctets bytes = ofOctets bytes') : bytes = bytes' := by
  have hdigits := Nat.ofDigits_inj_of_len_eq (by decide : 1 < 256)
    (by rw [List.length_map, List.length_map, List.length_reverse, List.length_reverse, hlen])
    (lt_of_mem_map_toNat _) (lt_of_mem_map_toNat _) h
  exact List.reverse_injective (List.map_injective_iff.mpr (fun a b => UInt8.toNat_inj.mp) hdigits)

/-- Octets without a leading zero are those of their number. -/
theorem octets_ofOctets {bytes : List UInt8} (h : bytes.head? ≠ some 0) :
    octets (ofOctets bytes) = bytes := by
  have hdigits : Nat.digits 256 (ofOctets bytes) = bytes.reverse.map UInt8.toNat := by
    refine Nat.digits_ofDigits 256 (by decide) _ (lt_of_mem_map_toNat _) fun hne hlast => h ?_
    cases bytes with
    | nil => exact absurd rfl hne
    | cons b rest =>
      have hb : b.toNat = 0 := by simpa using hlast
      exact congrArg some (UInt8.toNat_inj.mp hb)
  unfold octets
  rw [hdigits, ← List.map_reverse, List.reverse_reverse, List.map_map]
  exact (List.map_congr_left fun b _ => UInt8.ofNat_toNat).trans (List.map_id _)

theorem head?_octets (n : Nat) : (octets n).head? ≠ some 0 := by
  unfold octets
  rw [List.head?_map, List.head?_reverse]
  intro h
  obtain ⟨d, hd, hzero⟩ := Option.map_eq_some_iff.mp h
  have hlt := Nat.digits_lt_base (by decide : 1 < 256) (List.mem_of_getLast? hd)
  have hd0 : d = 0 := by
    have hmod := congrArg UInt8.toNat hzero
    rw [UInt8.toNat_ofNat', Nat.mod_eq_of_lt hlt] at hmod
    exact hmod
  have hn : n ≠ 0 := by
    rintro rfl
    rw [Nat.digits_zero] at hd
    cases hd
  have hne := Nat.getLast_digit_ne_zero 256 hn
  rw [List.getLast?_eq_some_getLast (Nat.digits_ne_nil_iff_ne_zero.mpr hn)] at hd
  exact hne ((Option.some.inj hd).trans hd0)

theorem octets_eq_nil_iff {n : Nat} : octets n = [] ↔ n = 0 := by
  constructor
  · intro h
    rw [← ofOctets_octets n, h]
    rfl
  · rintro rfl
    unfold octets
    rw [Nat.digits_zero]
    rfl

/-! ## A fixed width

Where the width is fixed, zeros in front make up for the octets a number does not need. They add
nothing to the number, so no number has two spellings of one width. -/

/-- `n` in `width` octets, with leading zeros. -/
def fixed (width n : Nat) : List UInt8 :=
  List.replicate (width - (octets n).length) 0 ++ octets n

@[simp] theorem ofOctets_fixed (width n : Nat) : ofOctets (fixed width n) = n := by
  unfold fixed
  rw [ofOctets_replicate_append, ofOctets_octets]

theorem length_fixed {width n : Nat} (h : n < 256 ^ width) : (fixed width n).length = width := by
  have hle := length_octets_le_iff.mpr h
  unfold fixed
  rw [List.length_append, List.length_replicate]
  omega

/-- Any octets of a number that fit, padded to the width, are the number in that width. -/
theorem fixed_ofOctets {bytes : List UInt8} {width : Nat} (h : bytes.length ≤ width) :
    fixed width (ofOctets bytes) = List.replicate (width - bytes.length) 0 ++ bytes := by
  refine eq_of_ofOctets_eq ?_ ?_
  · rw [length_fixed ((ofOctets_lt bytes).trans_le (Nat.pow_le_pow_right (by decide) h)),
      List.length_append, List.length_replicate]
    omega
  · rw [ofOctets_fixed, ofOctets_replicate_append]

end Iso15118.Lib
