import Iso15118.Exi.Carries

/-!
# The EXI header

Every degree of freedom of the header is pinned, so that a document begins with one byte and its
body follows. It is parsed all the same, and the cookie of generic tooling is let through.
-/

namespace Iso15118.Exi

open Iso15118.Lib

/-- `COOKIE`: `$EXI`. -/
def cookie : List UInt8 := [0x24, 0x45, 0x58, 0x49]

/-- `VERSION`. -/
def version : UInt8 := 1

/-- `Header`. -/
structure Header where
  cookie : Bool
  version : UInt8
  preview : Bool
  deriving DecidableEq, Repr

/-- `Header::ISO15118`. -/
def Header.iso15118 : Header where
  cookie := false
  version := Exi.version
  preview := false

/-- The groups a version is written in, in as many turns as the fuel allows. -/
def writeVersion (remaining : Nat) : Nat → EStateM ExiError BitWriter Unit
  | 0 => pure ()
  | n + 1 => do
      if remaining ≥ 15 then
        BitWriter.writeBits 15 4
        writeVersion (remaining - 15) n
      else BitWriter.writeBits remaining 4

/-- `write_header`. A version has no more than 17 groups. -/
def writeHeader (header : Header) : EStateM ExiError BitWriter Unit := do
  if header.cookie then BitWriter.writeBytes cookie else pure ()
  BitWriter.writeBits 0b10 2
  -- no options document
  BitWriter.writeBit false
  BitWriter.writeBit header.preview
  if header.version = 0 then throw .badHeader else pure ()
  writeVersion (header.version.toNat - 1) 17

/-- The cookie of `read_header`: only where the reader is aligned, and four bytes remain. -/
def readCookie : EStateM ExiError BitReader Bool := fun r =>
  if r.isAligned ∧ r.bitsRemaining ≥ 32 then
    match BitReader.readBytes 4 r with
    | .ok bytes probe => if bytes = cookie then .ok true probe else .ok false r
    | .error _ _ => .ok false r
  else .ok false r

/-- The groups of a version, in as many turns as the fuel allows. -/
def readVersion (version : Nat) : Nat → EStateM ExiError BitReader Nat
  | 0 => throw .badHeader
  | n + 1 => do
      let group ← BitReader.readBits 4
      if group ≠ 15 then return version + group
      else if version + group > 255 then throw .badHeader
      else readVersion (version + group) n

/-- `read_header`. After 17 groups of 15 the version is out of range. -/
def readHeader : EStateM ExiError BitReader Header := do
  let cookie ← readCookie
  if (← BitReader.readBits 2) ≠ 0b10 then throw .badHeader
  else if ← BitReader.readBit then throw .badHeader
  else
    let preview ← BitReader.readBit
    let version ← readVersion 1 17
    if version = Exi.version.toNat then return ⟨cookie, Exi.version, preview⟩
    else throw .badHeader

/-- `Encoder::write_header`. -/
def Encoder.header (header : Header) : EStateM ExiError Encoder Unit := prim (writeHeader header)

/-- `Decoder::read_header`. -/
def Decoder.header : EStateM ExiError Decoder Header := prim readHeader

/-! ## The header of every document

The one header the library writes, and the two things its reader does before it: it looks for the
cookie, and reads the version group by group. -/

/-- The byte `0x80`. -/
def headerBits : List Bool := bitsOf 8 0x80

theorem puts_writeHeader :
    Puts ExiError.outputFull (writeHeader Header.iso15118) headerBits := by
  have hbits := (BitWriter.puts_writeBits 0b10 2).seq ((BitWriter.puts_writeBit false).seq
    ((BitWriter.puts_writeBit false).seq (BitWriter.puts_writeBits 0 4)))
  exact hbits

/-- Where a document without a cookie begins, none is found. -/
theorem readCookie_of_rest {r : BitReader} {more : List Bool}
    (h : Source.rest r = headerBits ++ more) : readCookie r = .ok false r := by
  unfold readCookie
  split
  · split
    · next bytes probe hread =>
      -- the first byte of the probe is 0x80
      rw [if_neg ?_]
      intro hcookie
      rw [hcookie] at hread
      unfold BitReader.readBytes at hread
      obtain ⟨r₀, r₁, hget, hread⟩ := bind_ok.mp hread
      cases hget
      split at hread
      · cases hread
      · obtain ⟨byte, r₂, hbyte, hread⟩ := bind_ok.mp hread
        obtain ⟨bytes, r₃, -, hpure⟩ := bind_ok.mp hread
        cases hpure
        obtain ⟨r₄, hgot, -⟩ := BitReader.gets_readByte 0x80 _ r more rfl h
        rw [hgot] at hbyte
        cases hbyte
    · rfl
  · rfl

/-- The header is read back as the one that is written. -/
theorem gets_readHeader : Gets readHeader Header.iso15118 headerBits := by
  intro f r more hf hrest
  have hbits : Gets (do
      if (← BitReader.readBits 2) ≠ 0b10 then throw .badHeader
      else if ← BitReader.readBit then throw .badHeader
      else
        let preview ← BitReader.readBit
        let version ← readVersion 1 17
        if version = Exi.version.toNat then return ⟨false, Exi.version, preview⟩
        else throw .badHeader : EStateM ExiError BitReader Header) Header.iso15118 headerBits := by
    refine (BitReader.gets_readBits (show 2 < 2 ^ 2 by decide)).bind
      (?_ : Gets _ _ (List.replicate 6 false))
    rw [if_neg (by decide)]
    refine (BitReader.gets_readBit false).bind (?_ : Gets _ _ (List.replicate 5 false))
    refine (BitReader.gets_readBit false).bind (?_ : Gets _ _ (List.replicate 4 false))
    have hversion : Gets (readVersion 1 17) 1 (bitsOf 4 0) :=
      (BitReader.gets_readBits (show 0 < 2 ^ 4 by decide)).map rfl
    exact hversion.map rfl
  obtain ⟨r', hread, hmore, hframe⟩ := hbits f r more hf hrest
  exact ⟨r', bind_ok.mpr ⟨false, r, readCookie_of_rest hrest, hread⟩, hmore, hframe⟩

/-- The header that is written is read. -/
theorem carries_header {k : Nat} :
    Carries k k (Encoder.header .iso15118) Decoder.header .iso15118 :=
  .of_gets (Encoder.puts_prim puts_writeHeader) (Decoder.gets_prim gets_readHeader)

end Iso15118.Exi
