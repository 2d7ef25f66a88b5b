import Iso15118.Slac.Message
import Iso15118.Lib.Check

/-!
# Every SLAC message survives the wire

The thirteen messages of `slac/message.rs`, each an independent pair of writer and reader, taken
together:

* **`Record`** — a message of any type, with the `mmtype` it travels under, its declared `len`,
  its `encode`, and **`Record.Decodes`**, what its type's `decode` makes of a payload;
* **`Record.encode_eq_ok_iff`** — exactly when a message is written, and as what;
* **`Record.round_trip`** — a message that is written is framed, parsed and decoded to itself,
  whatever padding the medium adds, and a payload that decodes is written to one that decodes to
  the same.
-/

namespace Iso15118.Slac

open Iso15118.Lib

/-! ## The messages taken together

One type over the thirteen, with the operations of each by cases. -/

/-- A message of any type. -/
inductive Record where
  | setKeyReq (m : SetKeyReq)
  | setKeyCnf (m : SetKeyCnf)
  | slacParmReq (m : SlacParmReq)
  | slacParmCnf (m : SlacParmCnf)
  | startAttenCharInd (m : StartAttenCharInd)
  | attenCharInd (m : AttenCharInd)
  | attenCharRsp (m : AttenCharRsp)
  | mnbcSoundInd (m : MnbcSoundInd)
  | validateReq (m : ValidateReq)
  | validateCnf (m : ValidateCnf)
  | slacMatchReq (m : SlacMatchReq)
  | slacMatchCnf (m : SlacMatchCnf)
  | attenProfileInd (m : AttenProfileInd)
  deriving DecidableEq

namespace Record

/-- The type a message travels under. -/
def mmtype : Record → Mmtype
  | .setKeyReq _ => .setKeyReq
  | .setKeyCnf _ => .setKeyCnf
  | .slacParmReq _ => .slacParmReq
  | .slacParmCnf _ => .slacParmCnf
  | .startAttenCharInd _ => .startAttenCharInd
  | .attenCharInd _ => .attenCharInd
  | .attenCharRsp _ => .attenCharRsp
  | .mnbcSoundInd _ => .mnbcSoundInd
  | .validateReq _ => .validateReq
  | .validateCnf _ => .validateCnf
  | .slacMatchReq _ => .slacMatchReq
  | .slacMatchCnf _ => .slacMatchCnf
  | .attenProfileInd _ => .attenProfileInd

/-- `LEN`. -/
def len : Record → Nat
  | .setKeyReq _ => 38
  | .setKeyCnf _ => 14
  | .slacParmReq _ => 10
  | .slacParmCnf _ => 25
  | .startAttenCharInd _ => 19
  | .attenCharInd _ => 110
  | .attenCharRsp _ => 51
  | .mnbcSoundInd _ => 52
  | .validateReq _ => 3
  | .validateCnf _ => 3
  | .slacMatchReq _ => 66
  | .slacMatchCnf _ => 90
  | .attenProfileInd _ => 66

/-- The message's own `encode`, into a buffer of `capacity` bytes. -/
def encode : Record → Nat → Except SlacError (List UInt8)
  | .setKeyReq m => m.encode
  | .setKeyCnf m => m.encode
  | .slacParmReq m => m.encode
  | .slacParmCnf m => m.encode
  | .startAttenCharInd m => m.encode
  | .attenCharInd m => m.encode
  | .attenCharRsp m => m.encode
  | .mnbcSoundInd m => m.encode
  | .validateReq m => m.encode
  | .validateCnf m => m.encode
  | .slacMatchReq m => m.encode
  | .slacMatchCnf m => m.encode
  | .attenProfileInd m => m.encode

/-- The `decode` of the message's type returns the message. -/
def Decodes (payload : List UInt8) : Record → Prop
  | .setKeyReq m => SetKeyReq.decode payload = .ok m
  | .setKeyCnf m => SetKeyCnf.decode payload = .ok m
  | .slacParmReq m => SlacParmReq.decode payload = .ok m
  | .slacParmCnf m => SlacParmCnf.decode payload = .ok m
  | .startAttenCharInd m => StartAttenCharInd.decode payload = .ok m
  | .attenCharInd m => AttenCharInd.decode payload = .ok m
  | .attenCharRsp m => AttenCharRsp.decode payload = .ok m
  | .mnbcSoundInd m => MnbcSoundInd.decode payload = .ok m
  | .validateReq m => ValidateReq.decode payload = .ok m
  | .validateCnf m => ValidateCnf.decode payload = .ok m
  | .slacMatchReq m => SlacMatchReq.decode payload = .ok m
  | .slacMatchCnf m => SlacMatchCnf.decode payload = .ok m
  | .attenProfileInd m => AttenProfileInd.decode payload = .ok m

/-- The record on the wire, field by field. -/
def fields : Record → Fields
  | .setKeyReq m => m.fields
  | .setKeyCnf m => m.fields
  | .slacParmReq m => m.fields
  | .slacParmCnf m => m.fields
  | .startAttenCharInd m => m.fields
  | .attenCharInd m => m.fields
  | .attenCharRsp m => m.fields
  | .mnbcSoundInd m => m.fields
  | .validateReq m => m.fields
  | .validateCnf m => m.fields
  | .slacMatchReq m => m.fields
  | .slacMatchCnf m => m.fields
  | .attenProfileInd m => m.fields

/-- The message claims no more carrier groups than exist, if it carries a profile. -/
def Measurable : Record → Prop
  | .attenCharInd m => m.profile.numGroups.toNat ≤ aagLen
  | .attenProfileInd m => m.profile.numGroups.toNat ≤ aagLen
  | _ => True

end Record

/-! ## When a message is written

Each writer checks its claim, asks for its room and then writes; nothing fails after that. -/

/-- A writer that was handed out has room for the record. -/
theorem le_of_writer_bind {α : Type} {capacity len : Nat} {f : Writer → Except SlacError α} {a : α}
    (h : (writer capacity len >>= f) = .ok a) : len ≤ capacity := by
  obtain ⟨w, hw, -⟩ := bind_eq_ok.mp h
  unfold writer Writer.new at hw
  by_cases hle : len ≤ capacity
  · exact hle
  · rw [if_neg hle] at hw
    cases hw

theorem le_of_validate {numGroups : UInt8} {u : Unit}
    (h : AttenProfile.validate numGroups = .ok u) : numGroups.toNat ≤ aagLen := by
  unfold AttenProfile.validate at h
  by_cases hgt : numGroups.toNat > aagLen
  · rw [if_pos hgt] at h
    cases h
  · exact Nat.le_of_not_gt hgt

namespace Record

/-- A message with a claim it can keep, in a buffer that holds it, is written as its fields. -/
theorem encode_ok {r : Record} (hr : r.Measurable) {capacity : Nat} (h : r.len ≤ capacity) :
    r.encode capacity = .ok r.fields.flatten := by
  cases r with
  | setKeyReq m => exact m.encode_ok h
  | setKeyCnf m => exact m.encode_ok h
  | slacParmReq m => exact m.encode_ok h
  | slacParmCnf m => exact m.encode_ok h
  | startAttenCharInd m => exact m.encode_ok h
  | attenCharInd m => exact m.encode_ok hr h
  | attenCharRsp m => exact m.encode_ok h
  | mnbcSoundInd m => exact m.encode_ok h
  | validateReq m => exact m.encode_ok h
  | validateCnf m => exact m.encode_ok h
  | slacMatchReq m => exact m.encode_ok h
  | slacMatchCnf m => exact m.encode_ok h
  | attenProfileInd m => exact m.encode_ok hr h

/-- No other message is written: each writer asks for its room first, and the two messages with
a profile check its claim before that. -/
theorem fits_of_encode {r : Record} {capacity : Nat} {bytes : List UInt8}
    (h : r.encode capacity = .ok bytes) : r.Measurable ∧ r.len ≤ capacity := by
  cases r with
  | setKeyReq m => exact ⟨trivial, le_of_writer_bind h⟩
  | setKeyCnf m => exact ⟨trivial, le_of_writer_bind h⟩
  | slacParmReq m => exact ⟨trivial, le_of_writer_bind h⟩
  | slacParmCnf m => exact ⟨trivial, le_of_writer_bind h⟩
  | startAttenCharInd m => exact ⟨trivial, le_of_writer_bind h⟩
  | attenCharInd m =>
    obtain ⟨_, hvalidate, hwrite⟩ := bind_eq_ok.mp h
    exact ⟨le_of_validate hvalidate, le_of_writer_bind hwrite⟩
  | attenCharRsp m => exact ⟨trivial, le_of_writer_bind h⟩
  | mnbcSoundInd m => exact ⟨trivial, le_of_writer_bind h⟩
  | validateReq m => exact ⟨trivial, le_of_writer_bind h⟩
  | validateCnf m => exact ⟨trivial, le_of_writer_bind h⟩
  | slacMatchReq m => exact ⟨trivial, le_of_writer_bind h⟩
  | slacMatchCnf m => exact ⟨trivial, le_of_writer_bind h⟩
  | attenProfileInd m =>
    obtain ⟨_, hvalidate, hwrite⟩ := bind_eq_ok.mp h
    exact ⟨le_of_validate hvalidate, le_of_writer_bind hwrite⟩

/-- **When a message is written, and as what.** -/
theorem encode_eq_ok_iff {r : Record} {capacity : Nat} {bytes : List UInt8} :
    r.encode capacity = .ok bytes
      ↔ (r.Measurable ∧ r.len ≤ capacity) ∧ bytes = r.fields.flatten := by
  constructor
  · intro h
    have hfits := fits_of_encode h
    refine ⟨hfits, ?_⟩
    rw [encode_ok hfits.1 hfits.2] at h
    exact (Except.ok.inj h).symm
  · intro h
    rw [h.2]
    exact encode_ok h.1.1 h.1.2

/-! ## What a payload says

The decoders read the fields in the order in which they were written, and leave what follows. -/

/-- The fields of a message decode to it, whatever comes after them. -/
theorem decodes_fields {r : Record} (hr : r.Measurable) (rest : List UInt8) :
    r.Decodes (r.fields.flatten ++ rest) := by
  cases r with
  | setKeyReq m => exact m.decode_fields rest
  | setKeyCnf m => exact m.decode_fields rest
  | slacParmReq m => exact m.decode_fields rest
  | slacParmCnf m => exact m.decode_fields rest
  | startAttenCharInd m => exact m.decode_fields rest
  | attenCharInd m => exact m.decode_fields hr rest
  | attenCharRsp m => exact m.decode_fields rest
  | mnbcSoundInd m => exact m.decode_fields rest
  | validateReq m => exact m.decode_fields rest
  | validateCnf m => exact m.decode_fields rest
  | slacMatchReq m => exact m.decode_fields rest
  | slacMatchCnf m => exact m.decode_fields rest
  | attenProfileInd m => exact m.decode_fields hr rest

/-- A payload with an impossible claim is not decoded: both decoders check it before they read
the carrier groups. -/
theorem measurable_of_decodes {r : Record} {payload : List UInt8} (h : r.Decodes payload) :
    r.Measurable := by
  have hclaim : ∀ {numGroups : UInt8} {u : Unit} {bytes rest : List UInt8},
      (liftM (AttenProfile.validate numGroups) : Read Unit).run bytes = .ok (u, rest) →
        numGroups.toNat ≤ aagLen := by
    intro numGroups u bytes rest hrun
    cases hv : AttenProfile.validate numGroups with
    | ok _ => exact le_of_validate hv
    | error e =>
      rw [hv] at hrun
      cases hrun
  cases r with
  | attenCharInd m =>
    refine Reader.Returns.decode (P := fun m => m.profile.numGroups.toNat ≤ aagLen) ?_ h
    refine .bind fun _ _ _ _ => .bind fun _ _ _ _ => .bind fun _ _ _ _ => .bind fun _ _ _ _ =>
      .bind fun _ _ _ _ => .bind fun _ _ _ _ => .bind fun numGroups _ _ _ => ?_
    refine .bind fun _ _ _ hvalid => .bind fun aag _ _ _ => .pure ?_
    exact hclaim hvalid
  | attenProfileInd m =>
    refine Reader.Returns.decode (P := fun m => m.profile.numGroups.toNat ≤ aagLen) ?_ h
    refine .bind fun _ _ _ _ => .bind fun numGroups _ _ _ => .bind fun _ _ _ _ => ?_
    refine .bind fun _ _ _ hvalid => .bind fun aag _ _ _ => .pure ?_
    exact hclaim hvalid
  | _ => exact trivial

/-! ## Frame by frame

The record inside its frame: padding behind it does no harm, for a decoder reads no further than
its record. -/

/-- The type a message travels under is one the parser knows. -/
theorem fromU16_mmtype (r : Record) : Mmtype.fromU16 r.mmtype.asU16 = r.mmtype := by
  cases r <;> rfl

end Record

/-- A payload fits any buffer that holds its header, itself and the padding. -/
theorem writeFrame_of_le {capacity : Nat} {mmv : Mmv} {payload : List UInt8}
    (hlen : ethernetHeaderLen + 3 + mmv.fragmentationLen + payload.length ≤ capacity)
    (hmin : minFrameLen ≤ capacity) (destination source : MacAddr) (mmtype : Mmtype) :
    ∃ frame, writeFrame capacity destination source mmv mmtype payload = .ok frame := by
  unfold writeFrame
  simp only
  rw [if_neg (by omega)]
  exact ⟨_, rfl⟩

/-- A written frame parses with however many more bytes the medium hands over behind it. -/
theorem parseFrame_append {capacity : Nat} {destination source : MacAddr} {mmv : Mmv}
    {mmtype : Mmtype} {payload frame : List UInt8}
    (h : writeFrame capacity destination source mmv mmtype payload = .ok frame)
    (more : List UInt8) :
    ∃ padding, parseFrame (frame ++ more)
      = .ok ⟨destination, source, mmv, Mmtype.fromU16 mmtype.asU16, payload ++ padding⟩ := by
  unfold writeFrame at h
  simp only at h
  split at h
  · cases h
  · cases h
    rw [List.append_assoc, List.append_assoc]
    exact ⟨_, parseFrame_header_append ..⟩

namespace Record

/-- **Every message survives the wire.** A message that is written, framed under any addresses
and version, parses to those addresses, that version, its own type and a payload that decodes to
the message, whatever the frame was padded with; and a payload that decodes to the message is no
accident: the message is written to a record that decodes to it again. -/
theorem round_trip (r : Record) :
    (∀ capacity bytes, r.encode capacity = .ok bytes →
        ∀ destination source mmv room,
          (ethernetHeaderLen + 3 + mmv.fragmentationLen + bytes.length ≤ room →
              minFrameLen ≤ room →
              ∃ frame, writeFrame room destination source mmv r.mmtype bytes = .ok frame)
            ∧ ∀ frame, writeFrame room destination source mmv r.mmtype bytes = .ok frame →
                ∀ more, ∃ padding,
                  parseFrame (frame ++ more)
                      = .ok ⟨destination, source, mmv, r.mmtype, bytes ++ padding⟩
                    ∧ r.Decodes (bytes ++ padding))
      ∧ ∀ payload, r.Decodes payload →
          ∀ capacity, r.len ≤ capacity →
            ∃ bytes, r.encode capacity = .ok bytes ∧ r.Decodes bytes := by
  refine ⟨fun capacity bytes hencode destination source mmv room => ?_, ?_⟩
  · obtain ⟨⟨hr, -⟩, rfl⟩ := encode_eq_ok_iff.mp hencode
    refine ⟨fun hlen hmin => writeFrame_of_le hlen hmin destination source r.mmtype, ?_⟩
    intro frame hframe more
    obtain ⟨padding, hparse⟩ := parseFrame_append hframe more
    rw [fromU16_mmtype] at hparse
    exact ⟨padding, hparse, decodes_fields hr padding⟩
  · intro payload hdecodes capacity hlen
    have hr := measurable_of_decodes hdecodes
    refine ⟨r.fields.flatten, encode_ok hr hlen, ?_⟩
    have hdecodes' := decodes_fields hr []
    rwa [List.append_nil] at hdecodes'

/-- The shortest record, which the frame pads to the Ethernet minimum. -/
def toggled : Record := .validateReq ⟨0x00, 0x01, 0x01⟩

theorem round_trip_toggled :
    toggled.encode 192 = .ok [0x00, 0x01, 0x01]
      ∧ (∃ frame, writeFrame 192 broadcast (Bytes.replicate 6 0x02) .av11 toggled.mmtype
            [0x00, 0x01, 0x01] = .ok frame)
      ∧ ∃ bytes, toggled.encode 3 = .ok bytes ∧ toggled.Decodes bytes := by
  have hencode : toggled.encode 192 = .ok [0x00, 0x01, 0x01] := by decide
  refine ⟨hencode, ?_, ?_⟩
  · exact ((round_trip toggled).1 192 _ hencode broadcast (Bytes.replicate 6 0x02) .av11 192).1
      (by decide) (by decide)
  · exact (round_trip toggled).2 [0x00, 0x01, 0x01, 0x00] rfl 3 (by decide)

end Record

end Iso15118.Slac
