import Iso15118.Lib.Check
import Iso15118.Lib.Wire
import Iso15118.Protocol
import Mathlib.Algebra.Group.Nat.Defs

/-!
# V2GTP framing

`v2gtp.rs`: eight bytes of header — the version and its inverse, the payload type, the payload's
length — and the payload. The length is the only boundary a stream of frames has, so a header
that does not read ends the stream.
-/

namespace Iso15118.V2gtp

open Iso15118.Lib

/-! ## Payload types

The codes of the wire and the types the library knows. A code it does not know is kept as it is,
since a session has to be able to say what it was sent. -/

inductive PayloadType where
  | exiEncodedV2gMessage
  | part20Main
  | part20Ac
  | part20Dc
  | part20Acdp
  | part20Wpt
  | part20AcDerIec
  | part20AcDerSae
  | sdpRequest
  | sdpResponse
  | sdpWirelessRequest
  | sdpWirelessResponse
  | manufacturerSpecific (value : UInt16)
  | reserved (value : UInt16)
  deriving DecidableEq, Repr

namespace PayloadType

def asU16 : PayloadType → UInt16
  | .exiEncodedV2gMessage => 0x8001
  | .part20Main => 0x8002
  | .part20Ac => 0x8003
  | .part20Dc => 0x8004
  | .part20Acdp => 0x8005
  | .part20Wpt => 0x8006
  | .part20AcDerIec => 0x8010
  | .part20AcDerSae => 0x8011
  | .sdpRequest => 0x9000
  | .sdpResponse => 0x9001
  | .sdpWirelessRequest => 0x9002
  | .sdpWirelessResponse => 0x9003
  | .manufacturerSpecific value | .reserved value => value

/-- `PayloadType::from_u16`. -/
def fromU16 (value : UInt16) : PayloadType :=
  if value = 0x8001 then .exiEncodedV2gMessage
  else if value = 0x8002 then .part20Main
  else if value = 0x8003 then .part20Ac
  else if value = 0x8004 then .part20Dc
  else if value = 0x8005 then .part20Acdp
  else if value = 0x8006 then .part20Wpt
  else if value = 0x8010 then .part20AcDerIec
  else if value = 0x8011 then .part20AcDerSae
  else if value = 0x9000 then .sdpRequest
  else if value = 0x9001 then .sdpResponse
  else if value = 0x9002 then .sdpWirelessRequest
  else if value = 0x9003 then .sdpWirelessResponse
  else if 0xA000 ≤ value then .manufacturerSpecific value
  else .reserved value

/-- Whether a session that has settled on `protocol`, or on none yet, carries this type. -/
def belongsTo : PayloadType → Option Protocol → Bool
  -- The handshake before negotiation, and what the first generation's two protocols share.
  | .exiEncodedV2gMessage, none
  | .exiEncodedV2gMessage, some .iso2
  | .exiEncodedV2gMessage, some .din70121 => true
  -- ISO 15118-20 gives each message set its own type.
  | .part20Main, some .iso20
  | .part20Ac, some .iso20
  | .part20Dc, some .iso20
  | .part20Acdp, some .iso20
  | .part20Wpt, some .iso20
  | .part20AcDerIec, some .iso20
  | .part20AcDerSae, some .iso20 => true
  -- Everything else, the discovery types included: no session carries those.
  | _, _ => false

def isExi : PayloadType → Bool
  | .exiEncodedV2gMessage | .part20Main | .part20Ac | .part20Dc | .part20Acdp | .part20Wpt
  | .part20AcDerIec | .part20AcDerSae => true
  | _ => false

end PayloadType

/-! ## Frames

A frame is read off the front of a stream: nothing is decided before the header is there, and
what the header says is checked before the payload is waited for. -/

/-- `HEADER_LEN`. -/
def headerLen : Nat := 8

/-- `PROTOCOL_VERSION`. -/
def protocolVersion : UInt8 := 0x01

inductive V2gtpError where
  | incomplete
  | bufferTooSmall
  | unsupportedVersion (version : UInt8)
  | versionMismatch (version inverse : UInt8)
  | payloadTooLarge (declared : UInt32) (limit : Nat)
  deriving DecidableEq, Repr

structure Header where
  payloadType : PayloadType
  payloadLen : UInt32
  deriving DecidableEq, Repr

namespace Header

def toBytes (h : Header) : List UInt8 :=
  [protocolVersion, ~~~ protocolVersion] ++ u16ToBe h.payloadType.asU16 ++ u32ToBe h.payloadLen

/-- `Header::decode`. -/
def decode (input : List UInt8) : Except V2gtpError Header :=
  match input with
  | b₀ :: b₁ :: b₂ :: b₃ :: b₄ :: b₅ :: b₆ :: b₇ :: _ =>
      if b₀ ≠ protocolVersion then .error (.unsupportedVersion b₀)
      -- The inverse byte is the framing check.
      else if b₁ ≠ ~~~ protocolVersion then .error (.versionMismatch b₀ b₁)
      else .ok ⟨.fromU16 (u16FromBe b₂ b₃), u32FromBe b₄ b₅ b₆ b₇⟩
  | _ => .error .incomplete

end Header

/-- One frame off the front of a stream: its header, its payload, and what follows it. -/
structure Split where
  header : Header
  payload : List UInt8
  rest : List UInt8
  deriving DecidableEq, Repr

/-- `split_frame`. The payload's length is checked before its bytes are waited for. -/
def splitFrame (input : List UInt8) (maxPayloadLen : Nat) : Except V2gtpError Split := do
  let header ← Header.decode input
  let len := header.payloadLen.toNat
  if len > maxPayloadLen then .error (.payloadTooLarge header.payloadLen maxPayloadLen)
  else if input.length < headerLen + len then .error .incomplete
  else .ok {
    header
    payload := (input.drop headerLen).take len
    rest := input.drop (headerLen + len) }

/-- `write_frame`: the frame, for a buffer of `capacity` bytes. -/
def writeFrame (payloadType : PayloadType) (payload : List UInt8) (capacity : Nat) :
    Except V2gtpError (List UInt8) :=
  if 2 ^ 32 ≤ payload.length then
    .error (.payloadTooLarge (UInt32.ofNat (2 ^ 32 - 1)) (2 ^ 32 - 1))
  else if capacity < headerLen + payload.length then .error .bufferTooSmall
  else .ok (Header.toBytes ⟨payloadType, UInt32.ofNat payload.length⟩ ++ payload)

/-- A frame takes at least its header off the stream. -/
theorem length_rest_lt {input : List UInt8} {maxPayloadLen : Nat} {split : Split}
    (h : splitFrame input maxPayloadLen = .ok split) : split.rest.length < input.length := by
  obtain ⟨header, -, hrest⟩ := bind_eq_ok.mp h
  obtain ⟨-, hrest⟩ := refuse_eq_ok.mp hrest
  obtain ⟨hlen, hsplit⟩ := refuse_eq_ok.mp hrest
  cases hsplit
  simp only [List.length_drop, headerLen] at hlen ⊢
  omega

/-! ## A stream of frames

What a prefix of the stream already says, more bytes do not change. -/

/-- Reading a type keeps its code. -/
@[simp] theorem PayloadType.asU16_fromU16 (value : UInt16) : (fromU16 value).asU16 = value := by
  have hite : ∀ (c : Prop) [Decidable c] (t e : PayloadType), (c → t.asU16 = value) →
      e.asU16 = value → (if c then t else e).asU16 = value := by
    intro c _ t e ht he
    split
    · next h => exact ht h
    · exact he
  unfold fromU16
  iterate 12 refine hite _ _ _ (fun h => h.symm) ?_
  -- the two classes without a code of their own keep it
  exact hite _ _ _ (fun _ => rfl) rfl

theorem Header.decode_append {input : List UInt8} (more : List UInt8)
    (h : decode input ≠ .error .incomplete) : decode (input ++ more) = decode input := by
  match input with
  | b₀ :: b₁ :: b₂ :: b₃ :: b₄ :: b₅ :: b₆ :: b₇ :: rest => rfl
  | [] | [_] | [_, _] | [_, _, _] | [_, _, _, _] | [_, _, _, _, _] | [_, _, _, _, _, _]
  | [_, _, _, _, _, _, _] => exact absurd rfl h

/-- What splitting a frame off a stream comes to, once the header is there. -/
theorem splitFrame_of_header {input : List UInt8} {header : Header} (maxPayloadLen : Nat)
    (h : Header.decode input = .ok header) :
    splitFrame input maxPayloadLen
      = if header.payloadLen.toNat > maxPayloadLen then
          .error (.payloadTooLarge header.payloadLen maxPayloadLen)
        else if input.length < headerLen + header.payloadLen.toNat then .error .incomplete
        else .ok {
          header
          payload := (input.drop headerLen).take header.payloadLen.toNat
          rest := input.drop (headerLen + header.payloadLen.toNat) } := by
  unfold splitFrame
  rw [h]
  rfl

theorem splitFrame_of_error {input : List UInt8} {e : V2gtpError} (maxPayloadLen : Nat)
    (h : Header.decode input = .error e) : splitFrame input maxPayloadLen = .error e := by
  unfold splitFrame
  rw [h]
  rfl

/-- A frame is cut off the stream whatever follows it. -/
theorem splitFrame_append {input : List UInt8} {maxPayloadLen : Nat} {split : Split}
    (more : List UInt8) (h : splitFrame input maxPayloadLen = .ok split) :
    splitFrame (input ++ more) maxPayloadLen = .ok { split with rest := split.rest ++ more } := by
  cases hdecode : Header.decode input with
  | error e =>
    rw [splitFrame_of_error maxPayloadLen hdecode] at h
    cases h
  | ok header =>
    have happend : Header.decode (input ++ more) = .ok header := by
      rw [Header.decode_append more (by simp [hdecode]), hdecode]
    rw [splitFrame_of_header maxPayloadLen hdecode] at h
    rw [splitFrame_of_header maxPayloadLen happend]
    obtain ⟨hlarge, h⟩ := refuse_eq_ok.mp h
    obtain ⟨hlen, h⟩ := refuse_eq_ok.mp h
    cases h
    rw [if_neg hlarge, if_neg (by rw [List.length_append]; omega)]
    have hdrop : headerLen ≤ input.length := by omega
    have htake : header.payloadLen.toNat ≤ (input.drop headerLen).length := by
      rw [List.length_drop]
      omega
    rw [List.drop_append_of_le_length hdrop, List.take_append_of_le_length htake,
      List.drop_append_of_le_length (by omega)]

/-- What cannot be a frame cannot be one with more bytes behind it. -/
theorem splitFrame_error_append {input : List UInt8} {maxPayloadLen : Nat} {e : V2gtpError}
    (more : List UInt8) (h : splitFrame input maxPayloadLen = .error e) (he : e ≠ .incomplete) :
    splitFrame (input ++ more) maxPayloadLen = .error e := by
  cases hdecode : Header.decode input with
  | error e' =>
    rw [splitFrame_of_error maxPayloadLen hdecode] at h
    cases h
    have happend : Header.decode (input ++ more) = .error e := by
      rw [Header.decode_append more (by simpa [hdecode] using he), hdecode]
    exact splitFrame_of_error maxPayloadLen happend
  | ok header =>
    have happend : Header.decode (input ++ more) = .ok header := by
      rw [Header.decode_append more (by simp [hdecode]), hdecode]
    rw [splitFrame_of_header maxPayloadLen hdecode] at h
    rw [splitFrame_of_header maxPayloadLen happend]
    split at h
    · next hlarge => rw [if_pos hlarge, h]
    · split at h
      · cases h
        exact absurd rfl he
      · cases h

/-- The bytes of a frame that is not complete are fewer than those of the longest one. -/
theorem length_lt_of_incomplete {input : List UInt8} {maxPayloadLen : Nat}
    (h : splitFrame input maxPayloadLen = .error .incomplete) :
    input.length < headerLen + maxPayloadLen := by
  cases hdecode : Header.decode input with
  | error e =>
    rw [splitFrame_of_error maxPayloadLen hdecode] at h
    cases h
    by_contra hlong
    -- eight bytes or more decode, or are not a header
    match input with
    | b₀ :: b₁ :: b₂ :: b₃ :: b₄ :: b₅ :: b₆ :: b₇ :: rest =>
      simp only [Header.decode] at hdecode
      split at hdecode
      · simp at hdecode
      · split at hdecode <;> simp at hdecode
    | [] | [_] | [_, _] | [_, _, _] | [_, _, _, _] | [_, _, _, _, _] | [_, _, _, _, _, _]
    | [_, _, _, _, _, _, _] =>
      simp only [headerLen, List.length_cons, List.length_nil] at hlong
      omega
  | ok header =>
    rw [splitFrame_of_header maxPayloadLen hdecode] at h
    split at h
    · cases h
    · split at h
      · omega
      · cases h

theorem Header.decode_toBytes (h : Header) (rest : List UInt8)
    (htype : PayloadType.fromU16 h.payloadType.asU16 = h.payloadType) :
    decode (h.toBytes ++ rest) = .ok h := by
  simp only [toBytes, u16ToBe, u32ToBe, List.cons_append, List.nil_append, decode,
    u16FromBe_toBe, u32FromBe_toBe, htype]
  rfl

/-- **A frame that is written is the frame that is read**, whatever follows it. -/
theorem splitFrame_writeFrame {t : PayloadType} {payload frame : List UInt8}
    {capacity maxPayloadLen : Nat} (rest : List UInt8)
    (hwrite : writeFrame t payload capacity = .ok frame)
    (htype : PayloadType.fromU16 t.asU16 = t) (hlen : payload.length ≤ maxPayloadLen) :
    splitFrame (frame ++ rest) maxPayloadLen
      = .ok ⟨⟨t, UInt32.ofNat payload.length⟩, payload, rest⟩ := by
  unfold writeFrame at hwrite
  obtain ⟨hfits, hwrite⟩ := refuse_eq_ok.mp hwrite
  obtain ⟨-, hwrite⟩ := refuse_eq_ok.mp hwrite
  cases hwrite
  have hlength : (UInt32.ofNat payload.length).toNat = payload.length := by
    rw [UInt32.toNat_ofNat']
    exact Nat.mod_eq_of_lt (by omega)
  have hheader : (Header.toBytes ⟨t, UInt32.ofNat payload.length⟩).length = headerLen := rfl
  rw [List.append_assoc, splitFrame_of_header maxPayloadLen (Header.decode_toBytes _ _ htype)]
  dsimp only
  rw [hlength, if_neg (by omega), if_neg (by simp [hheader]), ← hheader]
  simp

end Iso15118.V2gtp
