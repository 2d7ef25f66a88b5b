import Iso15118.Lib.Check

/-!
# Just enough DER to read a certificate

`pnc/pki/der.rs`: a forward-only reader over the contents of one value. Every length is definite
and minimal, and is checked against what is left before it is believed.

A reader that consumes a value hands back the reader behind it, beside the value.

* **`readLength`** — a length in DER's one encoding of it;
* **`Der.any`**, **`Der.anyRaw`**, **`Der.expect`** — the next value, with its encoding, or under
  a tag the grammar fixes;
* **`Der.any_shorter`** — a value consumes at least its tag, so a loop over values ends.
-/

namespace Iso15118.Pnc.Pki

open Iso15118.Lib

/-! ## Tags and errors

The tags that a certificate uses, and the ways a value can fail to be one. -/

namespace Tag

def boolean : UInt8 := 0x01
def integer : UInt8 := 0x02
def bitString : UInt8 := 0x03
def octetString : UInt8 := 0x04
def oid : UInt8 := 0x06
def utcTime : UInt8 := 0x17
def generalizedTime : UInt8 := 0x18
def sequence : UInt8 := 0x30
def set : UInt8 := 0x31

/-- Context-specific constructed tag `n`. -/
def context (n : UInt8) : UInt8 := 0xA0 ||| n

end Tag

inductive DerError where
  | truncated
  | unexpectedTag (expected found : UInt8)
  | nonCanonicalLength
  | lengthTooLarge
  | trailingData
  | malformed
  deriving DecidableEq, Repr

/-! ## Lengths

A length is definite and in its shortest form, or refused. -/

/-- Octets as a number, most significant first. -/
def bigEndian (octets : List UInt8) : Nat := octets.foldl (fun acc b => acc * 256 + b.toNat) 0

/-- Octets in a `usize`, on a 64-bit target. -/
def usizeOctets : Nat := 8

/-- Reads a length and hands back the bytes after it. The indefinite form and any non-minimal
long form are refused. -/
def readLength (input : List UInt8) : Except DerError (Nat × List UInt8) :=
  match input with
  | [] => .error .truncated
  | first :: rest =>
      if first < 0x80 then .ok (first.toNat, rest)
      else if first = 0x80 then .error .nonCanonicalLength
      else if first = 0xFF then .error .malformed
      else
        let count := (first &&& 0x7F).toNat
        if rest.length < count then .error .truncated
        else
          let octets := rest.take count
          -- a leading zero octet means the length was written wider than needed
          if octets.head? = some 0x00 then .error .nonCanonicalLength
          else if count > usizeOctets then .error .lengthTooLarge
          else
            let len := bigEndian octets
            -- the short form would have expressed it
            if len < 0x80 then .error .nonCanonicalLength
            else .ok (len, rest.drop count)

/-! ## The reader

The reader is what is left of a slice. Every operation takes one value off its front. -/

/-- A forward-only reader over one value's contents. -/
structure Der where
  rest : List UInt8
  deriving DecidableEq

namespace Der

def isEmpty (d : Der) : Bool := d.rest.isEmpty

def finish (d : Der) : Except DerError Unit :=
  if d.isEmpty then .ok () else .error .trailingData

/-- The tag of the next value, without consuming it. -/
def peek (d : Der) : Option UInt8 := d.rest.head?

/-- The next value: its tag, its contents, and the reader behind it. -/
def any (d : Der) : Except DerError (UInt8 × List UInt8 × Der) :=
  match d.rest with
  | [] => .error .truncated
  | tag :: afterTag => do
      let (len, afterLen) ← readLength afterTag
      if afterLen.length < len then .error .truncated
      else .ok (tag, afterLen.take len, ⟨afterLen.drop len⟩)

/-- The next value with its tag and length octets, as they appear. -/
def anyRaw (d : Der) : Except DerError (UInt8 × List UInt8 × List UInt8 × Der) := do
  let (tag, contents, d') ← d.any
  let consumed := d.rest.length - d'.rest.length
  return (tag, d.rest.take consumed, contents, d')

def expect (d : Der) (expected : UInt8) : Except DerError (List UInt8 × Der) := do
  let (tag, contents, d') ← d.any
  if tag = expected then .ok (contents, d') else .error (.unexpectedTag expected tag)

def nested (d : Der) (expected : UInt8) : Except DerError (Der × Der) := do
  let (contents, d') ← d.expect expected
  return (⟨contents⟩, d')

/-- The next value, only if it carries `expected`. -/
def optional (d : Der) (expected : UInt8) : Except DerError (Option (List UInt8) × Der) :=
  if d.peek = some expected then do
    let (contents, d') ← d.expect expected
    return (some contents, d')
  else .ok (none, d)

/-- A `BOOLEAN`, in one of the two encodings DER admits. -/
def boolean (d : Der) : Except DerError (Bool × Der) := do
  let (contents, d') ← d.expect Tag.boolean
  if contents = [0x00] then .ok (false, d')
  else if contents = [0xFF] then .ok (true, d')
  else .error .malformed

/-- A small non-negative `INTEGER`. -/
def smallUint (d : Der) : Except DerError (Nat × Der) := do
  let (bytes, d') ← d.expect Tag.integer
  match bytes with
  | [] => .error .malformed
  | first :: rest =>
      -- a leading zero stands only where the next octet has its high bit set
      if first = 0x00 ∧ rest.head?.any (fun b => b &&& 0x80 = 0) then .error .malformed
      else if first &&& 0x80 ≠ 0 then .error .malformed
      else
        let bytes := if first = 0x00 then rest else bytes
        -- at most four octets, so the number is a `u32`
        if bytes.length > 4 then .error .lengthTooLarge
        else .ok (bigEndian bytes, d')

/-- A `BIT STRING`: how many of its last bits are unused, and its bytes. -/
def bitString (d : Der) : Except DerError (UInt8 × List UInt8 × Der) := do
  let (contents, d') ← d.expect Tag.bitString
  match contents with
  | [] => .error .malformed
  | unused :: bytes =>
      if unused > 7 ∨ (unused > 0 ∧ bytes.isEmpty) then .error .malformed
      else .ok (unused, bytes, d')

/-! ## What a value consumes

A value takes at least a tag and a length, which is why the loops over lists end. -/

/-- Reading a length never leaves more octets than there were. -/
theorem readLength_le {input rest : List UInt8} {len : Nat}
    (h : readLength input = .ok (len, rest)) : rest.length ≤ input.length := by
  unfold readLength at h
  split at h
  · cases h
  · simp only at h
    split at h
    · cases h
      simp
    · split at h
      · cases h
      · split at h
        · cases h
        · split at h
          · cases h
          · split at h
            · cases h
            · split at h
              · cases h
              · split at h
                · cases h
                · cases h
                  simp only [List.length_drop, List.length_cons]
                  omega

theorem any_shorter {d d' : Der} {tag : UInt8} {contents : List UInt8}
    (h : d.any = .ok (tag, contents, d')) : d'.rest.length < d.rest.length := by
  unfold any at h
  split at h
  · cases h
  · next afterTag hrest =>
    obtain ⟨⟨len, afterLen⟩, hlen, h⟩ := bind_eq_ok.mp h
    have hle := readLength_le hlen
    simp only at h
    split at h
    · cases h
    · cases h
      rw [hrest, List.length_cons, List.length_drop]
      omega

theorem nested_shorter {d d' item : Der} {tag : UInt8} (h : d.nested tag = .ok (item, d')) :
    d'.rest.length < d.rest.length := by
  obtain ⟨⟨contents, d₁⟩, hexpect, h⟩ := bind_eq_ok.mp h
  cases h
  obtain ⟨⟨found, contents', d₂⟩, hany, h⟩ := bind_eq_ok.mp hexpect
  simp only at h
  split at h
  · cases h
    exact any_shorter hany
  · cases h

end Der

end Iso15118.Pnc.Pki
