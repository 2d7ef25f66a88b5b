import Iso15118.Exi.Bitstream

/-!
# Built-in datatypes

The datatype representations that depend on nothing but the bit stream: integers, Booleans, binary
content, characters, decimals, floats and date-times. Each has a writer and a reader.

For each of them it is said what its writer puts into the stream, that its reader gets the value
back from it, and what can be said of a value that was read from anywhere.
-/

namespace Iso15118.Exi

open Iso15118.Lib
open BitWriter (writeBit writeBits writeByte writeBytes)
open BitReader (readBit readBits readByte readBytes)

/-! ## Unsigned integers

Groups of seven bits, the lowest first, with a flag on each that others follow. The loop of the
reader shifts each group to its place; the place grows by seven with each turn, and the tenth
group has room for one bit alone. -/

/-- `MAX_UINT_OCTETS`. -/
def maxUintOctets : Nat := 10

/-- The octets of `write_uint`: groups of seven bits, the least significant one first, each with its
high bit set while more follow. -/
def uintOctets : Nat → Nat → List UInt8
  | 0, _ => []
  | n + 1, value =>
      if value / 128 = 0 then [UInt8.ofNat (value % 128)]
      else UInt8.ofNat (value % 128 + 128) :: uintOctets n (value / 128)

/-- The loop of `write_uint`. -/
def writeUintFrom : Nat → Nat → EStateM ExiError BitWriter Unit
  | 0, _ => pure ()
  | n + 1, value => do
      let octet := value % 128
      let value := value / 128
      writeByte (UInt8.ofNat (if value ≠ 0 then octet + 128 else octet))
      if value = 0 then pure () else writeUintFrom n value

/-- `write_uint`. A `u64` has no more than ten groups. -/
def writeUint (value : UInt64) : EStateM ExiError BitWriter Unit :=
  writeUintFrom maxUintOctets value.toNat

/-- The loop of `read_uint`, from the value it has so far. -/
def readUintFrom : Nat → Nat → Nat → EStateM ExiError BitReader Nat
  | 0, _, _ => throw .integerOverflow
  | n + 1, shift, value => do
      let octet ← readByte
      let payload := octet.toNat % 128
      -- on the last octet only the bits that still fit may be set
      if shift ≥ 64 ∨ (shift = 63 ∧ payload > 1) then throw .integerOverflow
      else
        let value := value ||| payload <<< shift
        if octet.toNat / 128 = 0 then return value else readUintFrom n (shift + 7) value

/-- `read_uint`. -/
def readUint : EStateM ExiError BitReader UInt64 := do
  return UInt64.ofNat (← readUintFrom maxUintOctets 0 0)

/-- The bits of bytes, one after another. -/
def byteBits (bytes : List UInt8) : List Bool := bytes.flatMap fun b => bitsOf 8 b.toNat

/-- What `write_uint` puts into the stream. -/
def uintBits (value : UInt64) : List Bool := byteBits (uintOctets maxUintOctets value.toNat)

theorem puts_writeUintFrom (n value : Nat) :
    Puts ExiError.outputFull (writeUintFrom n value) (byteBits (uintOctets n value)) := by
  induction n generalizing value with
  | zero => exact Puts.pure
  | succ n ih =>
    unfold writeUintFrom uintOctets
    by_cases h : value / 128 = 0
    · rw [if_pos h]
      have hput := (BitWriter.puts_writeByte (UInt8.ofNat (value % 128))).seq Puts.pure
      simpa [h, byteBits] using hput
    · rw [if_neg h]
      have hput := (BitWriter.puts_writeByte (UInt8.ofNat (value % 128 + 128))).seq
        (ih (value / 128))
      simpa [h, byteBits] using hput

theorem puts_writeUint (value : UInt64) :
    Puts ExiError.outputFull (writeUint value) (uintBits value) :=
  puts_writeUintFrom maxUintOctets value.toNat

theorem or_shiftLeft {value shift : Nat} (payload : Nat) (h : value < 2 ^ shift) :
    value ||| payload <<< shift = value + payload * 2 ^ shift := by
  rw [Nat.or_comm, ← Nat.shiftLeft_add_eq_or_of_lt h, Nat.shiftLeft_eq, Nat.add_comm]

/-- The last group of a number. -/
theorem gets_readUintFrom_last {n shift acc value : Nat} (hshift : shift ≤ 63)
    (hacc : acc < 2 ^ shift) (hvalue : acc + value * 2 ^ shift < 2 ^ 64) (hlast : value < 128) :
    Gets (readUintFrom (n + 1) shift acc) (acc + value * 2 ^ shift)
      (bitsOf 8 (UInt8.ofNat value).toNat) := by
  have hoctet : (UInt8.ofNat value).toNat = value :=
    UInt8.toNat_ofNat_of_lt' (show value < 256 by omega)
  refine (BitReader.gets_readByte (UInt8.ofNat value)).map ?_
  have hfits : ¬ (shift ≥ 64 ∨ (shift = 63 ∧ value > 1)) := by
    rintro (h | ⟨rfl, h⟩)
    · omega
    · omega
  rw [hoctet, Nat.mod_eq_of_lt hlast, if_neg hfits, if_pos (Nat.div_eq_of_lt hlast),
    or_shiftLeft value hacc]

/-- A group that more follow. -/
theorem gets_readUintFrom_more {n shift acc value result : Nat} {bits : List Bool}
    (hshift : shift < 63) (hacc : acc < 2 ^ shift)
    (h : Gets (readUintFrom n (shift + 7) (acc + value % 128 * 2 ^ shift)) result bits) :
    Gets (readUintFrom (n + 1) shift acc) result
      (bitsOf 8 (UInt8.ofNat (value % 128 + 128)).toNat ++ bits) := by
  have hoctet : (UInt8.ofNat (value % 128 + 128)).toNat = value % 128 + 128 :=
    UInt8.toNat_ofNat_of_lt' (show value % 128 + 128 < 256 by omega)
  refine (BitReader.gets_readByte (UInt8.ofNat (value % 128 + 128))).bind ?_
  have hfits : ¬ (shift ≥ 64 ∨ (shift = 63 ∧ value % 128 > 1)) := by omega
  rw [hoctet, show (value % 128 + 128) % 128 = value % 128 by omega, if_neg hfits,
    if_neg (by omega), or_shiftLeft (value % 128) hacc]
  exact h

/-- The groups are read back, on top of what has been read: there is a bit of a `u64` for each of
those to come, and the last of the ten has one. -/
theorem gets_readUintFrom (n acc value : Nat) (hn : n ≤ 9) (hacc : acc < 2 ^ (7 * (9 - n)))
    (hvalue : acc + value * 2 ^ (7 * (9 - n)) < 2 ^ 64) :
    Gets (readUintFrom (n + 1) (7 * (9 - n)) acc) (acc + value * 2 ^ (7 * (9 - n)))
      (byteBits (uintOctets (n + 1) value)) := by
  induction n generalizing acc value with
  | zero =>
    have hlast : value < 128 := by omega
    rw [uintOctets, if_pos (Nat.div_eq_of_lt hlast), Nat.mod_eq_of_lt hlast]
    have hgets := gets_readUintFrom_last (n := 0) (by omega) hacc hvalue hlast
    simpa [byteBits] using hgets
  | succ n ih =>
    rw [uintOctets]
    by_cases hlast : value / 128 = 0
    · have hlt : value < 128 := by omega
      rw [if_pos hlast, Nat.mod_eq_of_lt hlt]
      have hgets := gets_readUintFrom_last (n := n + 1) (by omega) hacc hvalue hlt
      simpa [byteBits] using hgets
    · rw [if_neg hlast]
      have hshift : 7 * (9 - n) = 7 * (9 - (n + 1)) + 7 := by omega
      have hpow : 2 ^ (7 * (9 - n)) = 2 ^ (7 * (9 - (n + 1))) * 128 := by
        rw [hshift, Nat.pow_add]
      generalize hP : 2 ^ (7 * (9 - (n + 1))) = P at hacc hvalue hpow ⊢
      -- what the group adds, and what is left for the others
      have hsplit : acc + value % 128 * P + value / 128 * (P * 128) = acc + value * P := by
        have hdiv : value * P = (128 * (value / 128) + value % 128) * P := by
          rw [Nat.div_add_mod]
        rw [hdiv, Nat.add_mul, Nat.mul_comm 128, Nat.mul_assoc, Nat.mul_comm 128 P]
        omega
      have hgroup : acc + value % 128 * P < P * 128 := by
        have hmod : value % 128 ≤ 127 := by omega
        have hmul : value % 128 * P ≤ 127 * P := Nat.mul_le_mul_right P hmod
        omega
      have hih := ih (acc + value % 128 * P) (value / 128) (by omega) (by rw [hpow]; exact hgroup)
        (by rw [hpow, hsplit]; exact hvalue)
      rw [hpow, hsplit, hshift] at hih
      subst hP
      exact gets_readUintFrom_more (by omega) hacc hih

theorem gets_readUint (value : UInt64) : Gets readUint value (uintBits value) := by
  have hlt : value.toNat < 2 ^ 64 := value.toNat_lt
  have hgets := gets_readUintFrom 9 0 value.toNat (by omega) (by decide) (by simpa using hlt)
  rw [Nat.sub_self, Nat.mul_zero, Nat.pow_zero, Nat.mul_one, Nat.zero_add] at hgets
  refine hgets.map ?_
  rw [UInt64.ofNat_toNat]

theorem roundTrips_uint :
    RoundTrips ExiError.outputFull writeUint readUint (fun _ => True) uintBits where
  puts value _ := puts_writeUint value
  gets value _ := gets_readUint value
  yields := Yields.true _

/-! ## Signed integers

A sign and a magnitude, where a negative number is moved by one so that there is no second zero. -/

/-- What `write_int` writes of a value behind the sign: `-value - 1` of a negative one. -/
def magnitude (value : Int64) : UInt64 :=
  UInt64.ofNat (if value.toInt < 0 then (-value.toInt - 1).toNat else value.toInt.toNat)

/-- `write_int`. -/
def writeInt (value : Int64) : EStateM ExiError BitWriter Unit := do
  writeBit (value.toInt < 0)
  writeUint (magnitude value)

/-- `read_int`. -/
def readInt : EStateM ExiError BitReader Int64 := do
  let negative ← readBit
  let magnitude ← readUint
  if magnitude.toNat < 2 ^ 63 then
    if negative then return Int64.ofInt (-magnitude.toNat - 1)
    else return Int64.ofInt magnitude.toNat
  else throw .integerOverflow

def intBits (value : Int64) : List Bool := decide (value.toInt < 0) :: uintBits (magnitude value)

theorem toNat_magnitude (value : Int64) :
    (magnitude value).toNat
      = if value.toInt < 0 then (-value.toInt - 1).toNat else value.toInt.toNat := by
  have hlo := value.le_toInt
  have hhi := value.toInt_lt
  unfold magnitude
  refine UInt64.toNat_ofNat_of_lt' ?_
  show _ < 2 ^ 64
  split <;> omega

theorem puts_writeInt (value : Int64) :
    Puts ExiError.outputFull (writeInt value) (intBits value) :=
  (BitWriter.puts_writeBit _).seq (puts_writeUint (magnitude value))

theorem gets_readInt (value : Int64) : Gets readInt value (intBits value) := by
  have hlo := value.le_toInt
  have hhi := value.toInt_lt
  refine (BitReader.gets_readBit _).bind ((gets_readUint (magnitude value)).map ?_)
  rw [toNat_magnitude]
  by_cases hneg : value.toInt < 0
  · rw [if_pos hneg, if_pos (by omega), if_pos (by simpa using hneg)]
    have heq : (-((-value.toInt - 1).toNat : Int) - 1) = value.toInt := by omega
    rw [heq, Int64.ofInt_toInt]
  · rw [if_neg hneg, if_pos (by omega), if_neg (by simpa using hneg)]
    have heq : ((value.toInt.toNat : Nat) : Int) = value.toInt := by omega
    rw [heq, Int64.ofInt_toInt]

theorem roundTrips_int :
    RoundTrips ExiError.outputFull writeInt readInt (fun _ => True) intBits where
  puts value _ := puts_writeInt value
  gets value _ := gets_readInt value
  yields := Yields.true _

/-! ## Numbers of `n` bits and Booleans

Their width is known on both sides, so nothing but the bits is written. -/

/-- `write_nbit_uint`. -/
def writeNbitUint (value n : Nat) : EStateM ExiError BitWriter Unit := writeBits value n

/-- `read_nbit_uint`. -/
def readNbitUint (n : Nat) : EStateM ExiError BitReader Nat := readBits n

/-- `write_bool`. -/
def writeBool (value : Bool) : EStateM ExiError BitWriter Unit := writeBit value

/-- `read_bool`. -/
def readBool : EStateM ExiError BitReader Bool := readBit

/-- `bit_width`: the bits it takes to tell `count` alternatives apart. -/
def bitWidth (count : Nat) : Nat := if count ≤ 1 then 0 else (count - 1).log2 + 1

theorem lt_two_pow_bitWidth {i count : Nat} (h : i < count) : i < 2 ^ bitWidth count := by
  unfold bitWidth
  split
  · rw [Nat.pow_zero]
    omega
  · have hlt : count - 1 < 2 ^ ((count - 1).log2 + 1) := Nat.lt_log2_self
    omega

theorem yields_readBitsFrom (acc n : Nat) :
    Yields (BitReader.readBitsFrom acc n) fun value => value < 2 ^ n * (acc + 1) := by
  induction n generalizing acc with
  | zero =>
    refine Yields.pure ?_
    rw [Nat.pow_zero, Nat.one_mul]
    omega
  | succ n ih =>
    refine (Yields.true _).bind fun bit _ s value s' hok => ?_
    have hlt := ih (2 * acc + bit.toNat) s value s' hok
    have hbit : bit.toNat ≤ 1 := Bool.toNat_le bit
    have hle : 2 ^ n * (2 * acc + bit.toNat + 1) ≤ 2 ^ n * (2 * (acc + 1)) :=
      Nat.mul_le_mul_left _ (by omega)
    rw [Nat.pow_succ, Nat.mul_assoc]
    exact Nat.lt_of_lt_of_le hlt hle

theorem yields_readBits (n : Nat) : Yields (readBits n) fun value => value < 2 ^ n := by
  intro s value s' hok
  unfold readBits at hok
  obtain ⟨r, s₁, hget, hok⟩ := bind_ok.mp hok
  split at hok
  · cases hok
  · have hlt := yields_readBitsFrom 0 n s₁ value s' hok
    simpa using hlt

/-- Of a number of more than `n` bits the high ones would be lost. -/
theorem roundTrips_nbit (n : Nat) :
    RoundTrips ExiError.outputFull (writeNbitUint · n) (readNbitUint n) (· < 2 ^ n) (bitsOf n) where
  puts value _ := BitWriter.puts_writeBits value n
  gets _ h := BitReader.gets_readBits h
  yields := yields_readBits n

theorem roundTrips_bool :
    RoundTrips ExiError.outputFull writeBool readBool (fun _ => True) fun b => [b] where
  puts b _ := BitWriter.puts_writeBit b
  gets b _ := BitReader.gets_readBit b
  yields := Yields.true _

/-! ## Binary content

The length goes first, and the reader checks it before it takes as many bytes. -/

/-- `write_binary`: the length, and the bytes. -/
def writeBinary (bytes : List UInt8) : EStateM ExiError BitWriter Unit := do
  if bytes.length < 2 ^ 64 then
    writeUint (UInt64.ofNat bytes.length)
    writeBytes bytes
  else throw .valueTooLong

/-- `read_binary` of at most `maxLen` bytes. -/
def readBinary (maxLen : Nat) : EStateM ExiError BitReader (List UInt8) := do
  let len := (← readUint).toNat
  if len > maxLen then throw .valueTooLong
  else if len * 8 > (← get).bitsRemaining then throw .unexpectedEnd
  else readBytes len

def binaryBits (bytes : List UInt8) : List Bool :=
  uintBits (UInt64.ofNat bytes.length) ++ byteBits bytes

theorem puts_writeBinary {bytes : List UInt8} (h : bytes.length < 2 ^ 64) :
    Puts ExiError.outputFull (writeBinary bytes) (binaryBits bytes) := by
  unfold writeBinary
  rw [if_pos h]
  exact (puts_writeUint _).seq (BitWriter.puts_writeBytes bytes)

theorem gets_readBinary {bytes : List UInt8} {maxLen : Nat} (h : bytes.length < 2 ^ 64)
    (hmax : bytes.length ≤ maxLen) : Gets (readBinary maxLen) bytes (binaryBits bytes) := by
  have hlen : (UInt64.ofNat bytes.length).toNat = bytes.length := UInt64.toNat_ofNat_of_lt' h
  refine (gets_readUint _).bind ?_
  dsimp only
  rw [hlen, if_neg (by omega)]
  exact BitReader.gets_guard (BitReader.gets_readBytes bytes)
    (Nat.le_of_eq (BitReader.length_flatMap_bitsOf bytes).symm)

theorem yields_readBytesFrom (n : Nat) :
    Yields (BitReader.readBytesFrom n) fun bytes => bytes.length = n := by
  induction n with
  | zero => exact Yields.pure rfl
  | succ n ih =>
    refine (Yields.true _).bind fun byte _ => ih.bind fun bytes hbytes => Yields.pure ?_
    rw [List.length_cons, hbytes]

theorem yields_readBytes (n : Nat) : Yields (readBytes n) fun bytes => bytes.length = n := by
  intro s bytes s' hok
  obtain ⟨r, s₁, hget, hok⟩ := bind_ok.mp hok
  split at hok
  · cases hok
  · exact yields_readBytesFrom n s₁ bytes s' hok

theorem roundTrips_binary (maxLen : Nat) :
    RoundTrips ExiError.outputFull writeBinary (readBinary maxLen)
      (fun bytes => bytes.length < 2 ^ 64 ∧ bytes.length ≤ maxLen) binaryBits where
  puts _ h := puts_writeBinary h.1
  gets _ h := gets_readBinary h.1 h.2
  yields := by
    refine (Yields.true _).bind fun len _ s bytes s' hok => ?_
    have hlt : len.toNat < 2 ^ 64 := len.toNat_lt
    split at hok
    · cases hok
    · obtain ⟨r, s₁, hget, hok⟩ := bind_ok.mp hok
      split at hok
      · cases hok
      · have hlen := yields_readBytes len.toNat s₁ bytes s' hok
        omega

/-! ## Characters

The number of characters is known to the reader beforehand. It is checked against the bytes that
are left, since each character takes at least one. -/

/-- `write_chars`: code points, without a length. -/
def writeChars : List Char → EStateM ExiError BitWriter Unit
  | [] => pure ()
  | c :: chars => do
      writeUint (UInt64.ofNat c.toNat)
      writeChars chars

/-- The loop of `read_chars`. -/
def readCharsFrom : Nat → EStateM ExiError BitReader (List Char)
  | 0 => pure []
  | n + 1 => do
      let cp ← readUint
      if cp.toNat.isValidChar then
        let chars ← readCharsFrom n
        return Char.ofNat cp.toNat :: chars
      else throw .invalidCodePoint

/-- `read_chars` of `count` code points, each of which takes an octet at least. -/
def readChars (count : Nat) : EStateM ExiError BitReader (List Char) := do
  if count * 8 > (← get).bitsRemaining then throw .unexpectedEnd
  else readCharsFrom count

def charBits (chars : List Char) : List Bool :=
  chars.flatMap fun c => uintBits (UInt64.ofNat c.toNat)

theorem puts_writeChars (chars : List Char) :
    Puts ExiError.outputFull (writeChars chars) (charBits chars) := by
  induction chars with
  | nil => exact Puts.pure
  | cons c chars ih => exact (puts_writeUint _).seq ih

theorem gets_readCharsFrom (chars : List Char) :
    Gets (readCharsFrom chars.length) chars (charBits chars) := by
  induction chars with
  | nil => exact Gets.pure
  | cons c chars ih =>
    have hvalid : c.toNat.isValidChar := c.valid
    have hcp : (UInt64.ofNat c.toNat).toNat = c.toNat := by
      refine UInt64.toNat_ofNat_of_lt' ?_
      have hlt : c.toNat < 2 ^ 32 := c.val.toNat_lt
      show c.toNat < 2 ^ 64
      omega
    refine (gets_readUint _).bind ?_
    rw [hcp, if_pos hvalid]
    refine ih.map ?_
    rw [Char.ofNat_toNat]

/-- An integer takes at least an octet. -/
theorem length_uintBits (value : UInt64) : 8 ≤ (uintBits value).length := by
  unfold uintBits byteBits
  rw [BitReader.length_flatMap_bitsOf]
  show 8 ≤ (uintOctets (9 + 1) value.toNat).length * 8
  unfold uintOctets
  split
  · simp
  · rw [List.length_cons]
    omega

theorem length_charBits (chars : List Char) : chars.length * 8 ≤ (charBits chars).length := by
  induction chars with
  | nil => exact Nat.le_refl _
  | cons c chars ih =>
    have hlen := length_uintBits (UInt64.ofNat c.toNat)
    unfold charBits at ih ⊢
    rw [List.flatMap_cons, List.length_append, List.length_cons]
    omega

theorem gets_readChars (chars : List Char) : Gets (readChars chars.length) chars (charBits chars) :=
  BitReader.gets_guard (gets_readCharsFrom chars) (length_charBits chars)

theorem yields_readCharsFrom (n : Nat) :
    Yields (readCharsFrom n) fun chars => chars.length = n := by
  induction n with
  | zero => exact Yields.pure rfl
  | succ n ih =>
    refine (Yields.true _).bind fun cp _ => ?_
    split
    · refine ih.bind fun chars hchars => Yields.pure ?_
      rw [List.length_cons, hchars]
    · exact Yields.throw

theorem roundTrips_chars (count : Nat) :
    RoundTrips ExiError.outputFull writeChars (readChars count) (·.length = count) charBits where
  puts chars _ := puts_writeChars chars
  gets chars h := by
    subst h
    exact gets_readChars chars
  yields := by
    intro s chars s' hok
    obtain ⟨r, s₁, hget, hok⟩ := bind_ok.mp hok
    split at hok
    · cases hok
    · exact yields_readCharsFrom count s₁ chars s' hok

/-! ## Fractions and decimals

The digits behind the point are written as a number with its digits turned round, so that zeros
in front of them are not lost. -/

/-- `Fraction`: the digits behind the point in reverse order, at most nineteen of them. -/
structure Fraction where
  reversed : UInt64
  reversed_le : reversed.toNat ≤ 9999999999999999999
  deriving DecidableEq

/-- `Fraction::from_reversed`. -/
def Fraction.fromReversed (reversed : UInt64) : Option Fraction :=
  if h : reversed.toNat ≤ 9999999999999999999 then some ⟨reversed, h⟩ else none

/-- `write_fraction`. -/
def writeFraction (f : Fraction) : EStateM ExiError BitWriter Unit := writeUint f.reversed

/-- `read_fraction`. -/
def readFraction : EStateM ExiError BitReader Fraction := do
  match Fraction.fromReversed (← readUint) with
  | some f => return f
  | none => throw .integerOverflow

theorem gets_readFraction (f : Fraction) : Gets readFraction f (uintBits f.reversed) := by
  refine (gets_readUint f.reversed).map ?_
  rw [Fraction.fromReversed, dif_pos f.reversed_le]

/-- `Decimal`. Minus zero is a value of its own. -/
structure Decimal where
  negative : Bool
  integral : UInt64
  fractional : Fraction
  deriving DecidableEq

/-- `write_decimal`. -/
def writeDecimal (d : Decimal) : EStateM ExiError BitWriter Unit := do
  writeBool d.negative
  writeUint d.integral
  writeFraction d.fractional

/-- `read_decimal`. -/
def readDecimal : EStateM ExiError BitReader Decimal := do
  let negative ← readBool
  let integral ← readUint
  let fractional ← readFraction
  return ⟨negative, integral, fractional⟩

def decimalBits (d : Decimal) : List Bool :=
  [d.negative] ++ (uintBits d.integral ++ uintBits d.fractional.reversed)

theorem roundTrips_decimal :
    RoundTrips ExiError.outputFull writeDecimal readDecimal (fun _ => True) decimalBits where
  puts d _ := (BitWriter.puts_writeBit d.negative).seq
    ((puts_writeUint d.integral).seq (puts_writeUint d.fractional.reversed))
  gets d _ := (BitReader.gets_readBit d.negative).bind
    ((gets_readUint d.integral).bind ((gets_readFraction d.fractional).map rfl))
  yields := Yields.true _

/-! ## Floats

Two signed integers, whose ranges the writer and the reader check by the same predicate. -/

/-- `Float`: a mantissa and an exponent to the base of ten, as they are on the wire. -/
structure Float where
  mantissa : Int64
  exponent : Int64
  deriving DecidableEq

/-- `Float::is_special`: not a number, or an infinity. -/
def Float.isSpecial (f : Float) : Bool := f.exponent.toInt = -16384

/-- `Float::is_valid`. -/
def Float.isValid (f : Float) : Bool :=
  f.isSpecial || (-16383 ≤ f.exponent.toInt && f.exponent.toInt ≤ 16383)

/-- `write_float`. -/
def writeFloat (f : Float) : EStateM ExiError BitWriter Unit := do
  if f.isValid then
    writeInt f.mantissa
    writeInt f.exponent
  else throw .invalidFloat

/-- `read_float`. -/
def readFloat : EStateM ExiError BitReader Float := do
  let mantissa ← readInt
  let exponent ← readInt
  let f : Float := ⟨mantissa, exponent⟩
  if f.isValid then return f else throw .invalidFloat

def floatBits (f : Float) : List Bool := intBits f.mantissa ++ intBits f.exponent

theorem roundTrips_float :
    RoundTrips ExiError.outputFull writeFloat readFloat (·.isValid = true) floatBits where
  puts f h := by
    unfold writeFloat
    rw [if_pos h]
    exact (puts_writeInt f.mantissa).seq (puts_writeInt f.exponent)
  gets f h := by
    refine (gets_readInt f.mantissa).bind ((gets_readInt f.exponent).map ?_)
    exact if_pos h
  yields := by
    refine (Yields.true _).bind fun mantissa _ => (Yields.true _).bind fun exponent _ => ?_
    dsimp only
    split
    · next h => exact Yields.pure h
    · exact Yields.throw

/-! ## Date-times

The parts of a date in one number each, and two that may be missing. Every bound on them is
checked on both sides by the same predicate, which is what makes the writer accept all that the
reader returns. -/

/-- `DateTime`. -/
structure DateTime where
  year : Int64
  month : UInt8
  day : UInt8
  hour : UInt8
  minute : UInt8
  second : UInt8
  fractionalSecs : Option Fraction
  timezoneMinutes : Option Int16
  deriving DecidableEq

/-- `DATETIME_YEAR_OFFSET`. -/
def datetimeYearOffset : Int := 2000

/-- `MAX_HOUR`: midnight at the end of the day. -/
def maxHour : Nat := 24

/-- `TZ_BIAS`. -/
def tzBias : Int := 896

/-- Whether a number is an `i64`. -/
def isI64 (v : Int) : Bool := -2 ^ 63 ≤ v && v < 2 ^ 63

/-- The checks of `write_datetime` and of `read_datetime` on the fields of a date. -/
def DateTime.dateOk (dt : DateTime) : Bool :=
  !(dt.month.toNat = 0 || dt.month.toNat > 12 || dt.day.toNat = 0 || dt.day.toNat > 31)

/-- The checks of both on the time of day. -/
def DateTime.timeOk (dt : DateTime) : Bool :=
  !(dt.hour.toNat > maxHour || dt.minute.toNat > 59 || dt.second.toNat > 60)

/-- The last part of `write_datetime`. -/
def writeTimezone : Option Int16 → EStateM ExiError BitWriter Unit
  | none => writeBool false
  | some tz => do
      writeBool true
      let biased := tz.toInt + tzBias
      if 0 ≤ biased ∧ biased < 2048 then writeNbitUint biased.toNat 11
      else throw .invalidDateTime

/-- The part of `write_datetime` before it. -/
def writeFractionalSecs : Option Fraction → EStateM ExiError BitWriter Unit
  | none => writeBool false
  | some f => do
      writeBool true
      writeFraction f

/-- `write_datetime`. -/
def writeDatetime (dt : DateTime) : EStateM ExiError BitWriter Unit := do
  if dt.dateOk ∧ dt.timeOk ∧ isI64 (dt.year.toInt - datetimeYearOffset) then
    writeInt (Int64.ofInt (dt.year.toInt - datetimeYearOffset))
    writeNbitUint (dt.month.toNat * 32 + dt.day.toNat) 9
    writeNbitUint ((dt.hour.toNat * 64 + dt.minute.toNat) * 64 + dt.second.toNat) 17
    writeFractionalSecs dt.fractionalSecs
    writeTimezone dt.timezoneMinutes
  else throw .invalidDateTime

/-- The part of `read_datetime` that reads the fraction. -/
def readFractionalSecs : EStateM ExiError BitReader (Option Fraction) := do
  if ← readBool then return some (← readFraction) else return none

/-- The part of `read_datetime` that reads the time zone. Eleven bits are in the range of an
`i16`, biased or not. -/
def readTimezone : EStateM ExiError BitReader (Option Int16) := do
  if ← readBool then return some (Int16.ofInt ((← readNbitUint 11) - tzBias)) else return none

/-- `read_datetime`. -/
def readDatetime : EStateM ExiError BitReader DateTime := do
  let year := (← readInt).toInt + datetimeYearOffset
  if isI64 year then
    let monthDay ← readNbitUint 9
    let time ← readNbitUint 17
    let fractionalSecs ← readFractionalSecs
    let timezoneMinutes ← readTimezone
    let dt : DateTime :=
      { year := Int64.ofInt year
        month := UInt8.ofNat (monthDay / 32)
        day := UInt8.ofNat (monthDay % 32)
        hour := UInt8.ofNat (time / 4096)
        minute := UInt8.ofNat (time / 64 % 64)
        second := UInt8.ofNat (time % 64)
        fractionalSecs := fractionalSecs
        timezoneMinutes := timezoneMinutes }
    if dt.dateOk ∧ dt.timeOk then return dt else throw .invalidDateTime
  else throw .invalidDateTime

/-- What can be written: the fields in their ranges, the offset of the year an `i64`, the time zone
within eleven bits. -/
structure DateTime.Valid (dt : DateTime) : Prop where
  date : dt.dateOk = true
  time : dt.timeOk = true
  year : isI64 (dt.year.toInt - datetimeYearOffset) = true
  timezone : ∀ tz, dt.timezoneMinutes = some tz → 0 ≤ tz.toInt + tzBias ∧ tz.toInt + tzBias < 2048

def fractionalSecsBits : Option Fraction → List Bool
  | none => [false]
  | some f => [true] ++ uintBits f.reversed

def timezoneBits : Option Int16 → List Bool
  | none => [false]
  | some tz => [true] ++ bitsOf 11 (tz.toInt + tzBias).toNat

def datetimeBits (dt : DateTime) : List Bool :=
  intBits (Int64.ofInt (dt.year.toInt - datetimeYearOffset))
    ++ (bitsOf 9 (dt.month.toNat * 32 + dt.day.toNat)
      ++ (bitsOf 17 ((dt.hour.toNat * 64 + dt.minute.toNat) * 64 + dt.second.toNat)
        ++ (fractionalSecsBits dt.fractionalSecs ++ timezoneBits dt.timezoneMinutes)))

theorem puts_writeFractionalSecs (f : Option Fraction) :
    Puts ExiError.outputFull (writeFractionalSecs f) (fractionalSecsBits f) := by
  cases f with
  | none => exact BitWriter.puts_writeBit false
  | some f => exact (BitWriter.puts_writeBit true).seq (puts_writeUint f.reversed)

theorem gets_readFractionalSecs (f : Option Fraction) :
    Gets readFractionalSecs f (fractionalSecsBits f) := by
  cases f with
  | none => exact (BitReader.gets_readBit false).map rfl
  | some f => exact (BitReader.gets_readBit true).bind ((gets_readFraction f).map rfl)

theorem puts_writeTimezone {tz : Option Int16}
    (h : ∀ tz', tz = some tz' → 0 ≤ tz'.toInt + tzBias ∧ tz'.toInt + tzBias < 2048) :
    Puts ExiError.outputFull (writeTimezone tz) (timezoneBits tz) := by
  cases tz with
  | none => exact BitWriter.puts_writeBit false
  | some tz =>
    refine (BitWriter.puts_writeBit true).seq ?_
    dsimp only
    rw [if_pos (h tz rfl)]
    exact BitWriter.puts_writeBits _ 11

theorem gets_readTimezone {tz : Option Int16}
    (h : ∀ tz', tz = some tz' → 0 ≤ tz'.toInt + tzBias ∧ tz'.toInt + tzBias < 2048) :
    Gets readTimezone tz (timezoneBits tz) := by
  cases tz with
  | none => exact (BitReader.gets_readBit false).map rfl
  | some tz =>
    obtain ⟨hlo, hhi⟩ := h tz rfl
    have hread : Gets (readNbitUint 11) (tz.toInt + tzBias).toNat
        (bitsOf 11 (tz.toInt + tzBias).toNat) := BitReader.gets_readBits (by omega)
    refine (BitReader.gets_readBit true).bind (hread.map ?_)
    have hback : ((tz.toInt + tzBias).toNat : Int) - tzBias = tz.toInt := by omega
    rw [hback, Int16.ofInt_toInt]

theorem DateTime.dateOk_iff {dt : DateTime} :
    dt.dateOk = true ↔ (1 ≤ dt.month.toNat ∧ dt.month.toNat ≤ 12)
      ∧ (1 ≤ dt.day.toNat ∧ dt.day.toNat ≤ 31) := by
  unfold dateOk
  simp only [Bool.not_eq_true', Bool.or_eq_false_iff, decide_eq_false_iff_not]
  omega

theorem DateTime.timeOk_iff {dt : DateTime} :
    dt.timeOk = true ↔ dt.hour.toNat ≤ 24 ∧ dt.minute.toNat ≤ 59 ∧ dt.second.toNat ≤ 60 := by
  unfold timeOk maxHour
  simp only [Bool.not_eq_true', Bool.or_eq_false_iff, decide_eq_false_iff_not]
  omega

theorem toInt_ofInt_of_isI64 {v : Int} (h : isI64 v = true) : (Int64.ofInt v).toInt = v := by
  unfold isI64 at h
  rw [Bool.and_eq_true, decide_eq_true_eq, decide_eq_true_eq] at h
  exact Int64.toInt_ofInt_of_le h.1 h.2

theorem puts_writeDatetime {dt : DateTime} (h : dt.Valid) :
    Puts ExiError.outputFull (writeDatetime dt) (datetimeBits dt) := by
  unfold writeDatetime
  rw [if_pos ⟨h.date, h.time, h.year⟩]
  exact (puts_writeInt _).seq ((BitWriter.puts_writeBits _ 9).seq
    ((BitWriter.puts_writeBits _ 17).seq
      ((puts_writeFractionalSecs dt.fractionalSecs).seq (puts_writeTimezone h.timezone))))

/-- A valid date is read back from its bits, field by field. -/
theorem gets_readDatetime {dt : DateTime} (h : dt.Valid) :
    Gets readDatetime dt (datetimeBits dt) := by
  obtain ⟨hmonth, hday⟩ := DateTime.dateOk_iff.mp h.date
  obtain ⟨hhour, hminute, hsecond⟩ := DateTime.timeOk_iff.mp h.time
  have hyear : (Int64.ofInt (dt.year.toInt - datetimeYearOffset)).toInt + datetimeYearOffset
      = dt.year.toInt := by
    rw [toInt_ofInt_of_isI64 h.year]
    omega
  have hisI64 : isI64 dt.year.toInt = true := by
    have hlo := dt.year.le_toInt
    have hhi := dt.year.toInt_lt
    unfold isI64
    rw [Bool.and_eq_true, decide_eq_true_eq, decide_eq_true_eq]
    omega
  refine (gets_readInt _).bind ?_
  dsimp only
  rw [hyear, if_pos hisI64]
  have hdate : Gets (readNbitUint 9) (dt.month.toNat * 32 + dt.day.toNat) (bitsOf 9 _) :=
    BitReader.gets_readBits (by omega)
  have htime : Gets (readNbitUint 17)
      ((dt.hour.toNat * 64 + dt.minute.toNat) * 64 + dt.second.toNat) (bitsOf 17 _) :=
    BitReader.gets_readBits (by omega)
  refine hdate.bind (htime.bind ((gets_readFractionalSecs _).bind
    ((gets_readTimezone h.timezone).map ?_)))
  -- the fields come apart as they were put together
  have hfields : (dt.month.toNat * 32 + dt.day.toNat) / 32 = dt.month.toNat
      ∧ (dt.month.toNat * 32 + dt.day.toNat) % 32 = dt.day.toNat
      ∧ ((dt.hour.toNat * 64 + dt.minute.toNat) * 64 + dt.second.toNat) / 4096 = dt.hour.toNat
      ∧ ((dt.hour.toNat * 64 + dt.minute.toNat) * 64 + dt.second.toNat) / 64 % 64
          = dt.minute.toNat
      ∧ ((dt.hour.toNat * 64 + dt.minute.toNat) * 64 + dt.second.toNat) % 64
          = dt.second.toNat := by
    omega
  obtain ⟨h₁, h₂, h₃, h₄, h₅⟩ := hfields
  rw [h₁, h₂, h₃, h₄, h₅, Int64.ofInt_toInt]
  simp only [UInt8.ofNat_toNat]
  exact if_pos ⟨h.date, h.time⟩

theorem yields_readTimezone : Yields readTimezone fun tz =>
    ∀ tz', tz = some tz' → 0 ≤ tz'.toInt + tzBias ∧ tz'.toInt + tzBias < 2048 := by
  refine (Yields.true _).bind fun present _ => ?_
  split
  · refine (yields_readBits 11).bind fun v hv => Yields.pure ?_
    rintro tz' ⟨⟩
    have hback : (Int16.ofInt ((v : Int) - tzBias)).toInt = (v : Int) - tzBias := by
      unfold tzBias
      exact Int16.toInt_ofInt_of_le (by omega) (by omega)
    omega
  · exact Yields.pure fun tz' h => by cases h

/-- Dates go out and come back, and none comes out of the reader that is not valid. -/
theorem roundTrips_datetime :
    RoundTrips ExiError.outputFull writeDatetime readDatetime DateTime.Valid datetimeBits where
  puts _ h := puts_writeDatetime h
  gets _ h := gets_readDatetime h
  yields := by
    refine (Yields.true _).bind fun offset _ => ?_
    dsimp only
    split
    · next hyear =>
      refine (Yields.true _).bind fun monthDay _ => (Yields.true _).bind fun time _ =>
        (Yields.true _).bind fun fractionalSecs _ => yields_readTimezone.bind fun tz htz => ?_
      split
      · next hok =>
        refine Yields.pure ⟨hok.1, hok.2, ?_, htz⟩
        show isI64 ((Int64.ofInt (offset.toInt + datetimeYearOffset)).toInt - _) = true
        rw [toInt_ofInt_of_isI64 hyear]
        have hlo := offset.le_toInt
        have hhi := offset.toInt_lt
        unfold isI64
        rw [Bool.and_eq_true, decide_eq_true_eq, decide_eq_true_eq]
        omega
      · exact Yields.throw
    · exact Yields.throw

end Iso15118.Exi
