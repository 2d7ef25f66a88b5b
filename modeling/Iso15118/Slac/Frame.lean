import Iso15118.Lib.Wire

/-!
# SLAC framing

`slac/mod.rs`: HomePlug AV management messages carried directly in Ethernet frames. The version
byte decides whether a two-byte fragmentation field sits between the header and the payload, and
a short frame is zero-padded to the Ethernet minimum, so a receiver never infers a message's
length from the frame's.

* **`writeFrame`**, **`parseFrame`** — the two directions;
* **`parseFrame_writeFrame`** — a frame that was written parses to what it was written from, its
  payload followed by the padding.
-/

namespace Iso15118.Slac

open Iso15118.Lib

/-! ## Constants

The numbers of the standards that the frames are built with, and names for fixed arrays of bytes. -/

/-- `ETHERTYPE_HOMEPLUG_AV`. -/
def ethertypeHomeplugAv : UInt16 := 0x88E1

def ethernetHeaderLen : Nat := 14

/-- Minimum length of an Ethernet frame excluding the FCS. -/
def minFrameLen : Nat := 60

/-- Number of OFDM carrier groups in an attenuation profile. -/
def aagLen : Nat := 58

abbrev MacAddr := Bytes 6

/-- A matching-run identifier. -/
abbrev RunId := Bytes 8

/-- A station identifier: the vehicle's VIN, or an EVSE id. -/
abbrev StationId := Bytes 17

/-- A Network Membership Key. -/
abbrev Nmk := Bytes 16

/-- A Network Identifier. -/
abbrev Nid := Bytes 7

/-- The Ethernet broadcast address. -/
def broadcast : MacAddr := Bytes.replicate 6 0xFF

def applicationTypePevEvse : UInt8 := 0x00

def securityTypeNone : UInt8 := 0x00

/-! ## Versions and message types

The codes of the wire. A code that is not known is kept as it is. -/

/-- HomePlug management message version. -/
inductive Mmv where
  | av10
  | av11
  | av20
  deriving DecidableEq, Repr

/-- Management message type. -/
inductive Mmtype where
  | setKeyReq
  | setKeyCnf
  | slacParmReq
  | slacParmCnf
  | startAttenCharInd
  | attenCharInd
  | attenCharRsp
  | mnbcSoundInd
  | validateReq
  | validateCnf
  | slacMatchReq
  | slacMatchCnf
  | attenProfileInd
  | other (code : UInt16)
  deriving DecidableEq, Repr

/-- Errors from SLAC framing and message parsing. -/
inductive SlacError where
  | truncated
  | bufferTooSmall
  | notHomeplug (ethertype : UInt16)
  | unknownMmv (version : UInt8)
  | unexpectedMmtype (expected actual : Mmtype)
  | unsupportedProfile (applicationType securityType : UInt8)
  | badLength (declared expected : Nat)
  | tooManyGroups (groups : UInt8)
  deriving DecidableEq, Repr

namespace Mmv

def asU8 : Mmv → UInt8
  | .av10 => 0x00
  | .av11 => 0x01
  | .av20 => 0x02

def fromU8 (value : UInt8) : Except SlacError Mmv :=
  match value with
  | 0x00 => .ok .av10
  | 0x01 => .ok .av11
  | 0x02 => .ok .av20
  | other => .error (.unknownMmv other)

/-- Length of the fragmentation field that follows the header. -/
def fragmentationLen : Mmv → Nat
  | .av10 => 0
  | .av11 | .av20 => 2

@[simp] theorem fromU8_asU8 (v : Mmv) : fromU8 v.asU8 = .ok v := by
  cases v <;> rfl

end Mmv

namespace Mmtype

def asU16 : Mmtype → UInt16
  | .setKeyReq => 0x6008
  | .setKeyCnf => 0x6009
  | .slacParmReq => 0x6064
  | .slacParmCnf => 0x6065
  | .startAttenCharInd => 0x606A
  | .attenCharInd => 0x606E
  | .attenCharRsp => 0x606F
  | .mnbcSoundInd => 0x6076
  | .validateReq => 0x6078
  | .validateCnf => 0x6079
  | .slacMatchReq => 0x607C
  | .slacMatchCnf => 0x607D
  | .attenProfileInd => 0x6086
  | .other code => code

def fromU16 (value : UInt16) : Mmtype :=
  match value with
  | 0x6008 => .setKeyReq
  | 0x6009 => .setKeyCnf
  | 0x6064 => .slacParmReq
  | 0x6065 => .slacParmCnf
  | 0x606A => .startAttenCharInd
  | 0x606E => .attenCharInd
  | 0x606F => .attenCharRsp
  | 0x6076 => .mnbcSoundInd
  | 0x6078 => .validateReq
  | 0x6079 => .validateCnf
  | 0x607C => .slacMatchReq
  | 0x607D => .slacMatchCnf
  | 0x6086 => .attenProfileInd
  | code => .other code

end Mmtype

/-! ## Frames

A header, perhaps a fragmentation field, the payload, and zeros up to the shortest frame there
is. -/

/-- A parsed management message frame. The payload is still padded to the Ethernet minimum if it
was short. -/
structure Frame where
  destination : MacAddr
  source : MacAddr
  mmv : Mmv
  mmtype : Mmtype
  payload : List UInt8
  deriving DecidableEq

/-- The header as it stands at the front of a frame. HomePlug carries the message type
little-endian, unlike the EtherType; the fragmentation field stays zero. -/
def header (destination source : MacAddr) (mmv : Mmv) (mmtype : Mmtype) : List UInt8 :=
  destination.toList ++ source.toList ++ u16ToBe ethertypeHomeplugAv ++ [mmv.asU8]
    ++ u16ToLe mmtype.asU16 ++ List.replicate mmv.fragmentationLen 0

/-- `write_frame`: the frame at the front of a buffer of `capacity` bytes. -/
def writeFrame (capacity : Nat) (destination source : MacAddr) (mmv : Mmv) (mmtype : Mmtype)
    (payload : List UInt8) : Except SlacError (List UInt8) :=
  let headerLen := ethernetHeaderLen + 3 + mmv.fragmentationLen
  let len := max (headerLen + payload.length) minFrameLen
  if capacity < len then .error .bufferTooSmall
  else
    .ok (header destination source mmv mmtype ++ payload
      ++ List.replicate (len - (headerLen + payload.length)) 0)

/-- `parse_frame`. -/
def parseFrame (frame : List UInt8) : Except SlacError Frame :=
  if h : frame.length < ethernetHeaderLen + 3 then .error .truncated
  else
    have hlen : 17 ≤ frame.length := Nat.le_of_not_lt h
    let byte (i : Nat) : UInt8 := frame.getD i 0
    let ethertype := u16FromBe (byte 12) (byte 13)
    if ethertype ≠ ethertypeHomeplugAv then .error (.notHomeplug ethertype)
    else
      match Mmv.fromU8 (byte 14) with
      | .error e => .error e
      | .ok mmv =>
          let mmtype := Mmtype.fromU16 (u16FromLe (byte 15) (byte 16))
          let bodyStart := ethernetHeaderLen + 3 + mmv.fragmentationLen
          if frame.length < bodyStart then .error .truncated
          else
            .ok {
              destination := ⟨frame.take 6, by rw [List.length_take]; omega⟩
              source := ⟨(frame.drop 6).take 6, by rw [List.length_take, List.length_drop]; omega⟩
              mmv
              mmtype
              payload := frame.drop bodyStart }

/-! ## What was written parses

The header is taken apart byte by byte, once; the payload comes back with the padding behind it. -/

theorem exists_of_length_six {xs : List UInt8} (h : xs.length = 6) :
    ∃ a b c d e f, xs = [a, b, c, d, e, f] := by
  match xs, h with
  | [a, b, c, d, e, f], _ => exact ⟨a, b, c, d, e, f, rfl⟩

/-- Parsing, byte by byte: the header read off the front of a frame that is long enough. -/
theorem parseFrame_cons {d₀ d₁ d₂ d₃ d₄ d₅ s₀ s₁ s₂ s₃ s₄ s₅ e₀ e₁ v t₀ t₁ : UInt8}
    {rest : List UInt8} {mmv : Mmv} (he : u16FromBe e₀ e₁ = ethertypeHomeplugAv)
    (hv : Mmv.fromU8 v = .ok mmv) (hrest : mmv.fragmentationLen ≤ rest.length) :
    parseFrame (d₀ :: d₁ :: d₂ :: d₃ :: d₄ :: d₅ :: s₀ :: s₁ :: s₂ :: s₃ :: s₄ :: s₅ :: e₀ :: e₁
        :: v :: t₀ :: t₁ :: rest)
      = .ok ⟨⟨[d₀, d₁, d₂, d₃, d₄, d₅], rfl⟩, ⟨[s₀, s₁, s₂, s₃, s₄, s₅], rfl⟩, mmv,
          Mmtype.fromU16 (u16FromLe t₀ t₁), rest.drop mmv.fragmentationLen⟩ := by
  unfold parseFrame
  rw [dif_neg (by simp only [List.length_cons, ethernetHeaderLen]; omega)]
  simp only [List.getD_cons_succ, List.getD_cons_zero]
  rw [if_neg (not_not.mpr he), hv]
  have hdrop : ethernetHeaderLen + 3 + mmv.fragmentationLen = mmv.fragmentationLen + 17 := by
    unfold ethernetHeaderLen
    omega
  simp only [hdrop, List.length_cons]
  split
  · omega
  · rfl

theorem parseFrame_header_append (destination source : MacAddr) (mmv : Mmv) (mmtype : Mmtype)
    (body : List UInt8) :
    parseFrame (header destination source mmv mmtype ++ body)
      = .ok ⟨destination, source, mmv, Mmtype.fromU16 mmtype.asU16, body⟩ := by
  obtain ⟨d, hd⟩ := destination
  obtain ⟨s, hs⟩ := source
  obtain ⟨d₀, d₁, d₂, d₃, d₄, d₅, rfl⟩ := exists_of_length_six hd
  obtain ⟨s₀, s₁, s₂, s₃, s₄, s₅, rfl⟩ := exists_of_length_six hs
  -- The bytes laid end to end, so that the header is read off their front.
  simp only [header, u16ToBe, u16ToLe, List.cons_append, List.nil_append]
  rw [parseFrame_cons (by decide) (Mmv.fromU8_asU8 mmv) (by simp), u16FromLe_toLe,
    List.drop_left' List.length_replicate]

/-- **A written frame parses.** The addresses, the version and the message type come back, and
the payload with the padding behind it. -/
theorem parseFrame_writeFrame {capacity : Nat} {destination source : MacAddr} {mmv : Mmv}
    {mmtype : Mmtype} {payload frame : List UInt8}
    (h : writeFrame capacity destination source mmv mmtype payload = .ok frame) :
    ∃ padding, parseFrame frame
      = .ok ⟨destination, source, mmv, Mmtype.fromU16 mmtype.asU16, payload ++ padding⟩ := by
  unfold writeFrame at h
  simp only at h
  split at h
  · cases h
  · cases h
    rw [List.append_assoc]
    exact ⟨_, parseFrame_header_append ..⟩

end Iso15118.Slac
