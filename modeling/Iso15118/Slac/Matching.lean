import Iso15118.Slac.Message
import Iso15118.Session.Clock

/-!
# What the two matching engines share

`slac/matching.rs` is a pair of sans-I/O state machines: the charging station's half of a
matching run and the vehicle's. Here is what they have in common: the frames they build, the
frames they take in, and the reasons a run ends without a match.

* **`frame`** — a message in its Ethernet frame, ready to write; **`frame_carries`** — the frame
  parses back to its addresses, its type and its message;
* **`receive`** — what a frame on the medium says, or nothing when it does not parse or does not
  decode. Dropping it is the whole design: nothing here authenticates a frame.
-/

namespace Iso15118.Slac

open Iso15118.Lib

/-! ## Timers and limits

The times of the standard and the limits of the queues. -/

namespace Timers

/-- `C_EV_START_ATTEN_CHAR_INDS`. -/
def cEvStartAttenCharInds : UInt8 := 3

/-- `C_EV_MATCH_MNBC`: sounding packets per run. -/
def cEvMatchMnbc : UInt8 := 10

def tpEvBatchMsgIntervalMs : UInt64 := 40

def ttEvAttenResultsMs : UInt64 := 1200

def ttEvseMatchMnbcMs : UInt64 := 600

def ttMatchResponseMs : UInt64 := 200

def ttEvseMatchSessionMs : UInt64 := 10000

def ttMatchJoinMs : UInt64 := 12000

/-- `u8::try_from(TT_EVSE_MATCH_MNBC_MS / 100).unwrap_or(6)`: the window in units of 100 ms. -/
def soundingTimeout : UInt8 :=
  let window := (ttEvseMatchMnbcMs / 100).toNat
  if window < 256 then UInt8.ofNat window else 6

end Timers

/-- The management message version SLAC uses. -/
def mmv : Mmv := .av11

/-- `resp_type`: "other GP station". -/
def respType : UInt8 := 0x01

/-- How many distinct stations one matching run will remember answering. -/
def maxStations : Nat := 32

/-- How many unsent frames either engine will hold. -/
def maxPendingFrames : Nat := 16

/-- How many undrained events either engine will hold, terminal ones apart. -/
def maxPendingEvents : Nat := 64

/-- Largest SLAC frame. -/
def maxFrameLen : Nat := 192

/-- Why a matching run ended without a match. -/
inductive Reason where
  | noStation
  | tooFarAway
  | timeout
  | outOfSequence
  | rejected
  | noMeasurement
  | encodingFailed
  deriving DecidableEq, Repr

/-! ## Frames out

A message is encoded and framed in one step, which fails only where the message is none that can
be encoded. -/

/-- A frame to put on the wire. -/
structure Outgoing where
  destination : MacAddr
  frame : List UInt8
  deriving DecidableEq

/-- Builds a frame around the message `encode` writes. -/
def frame (destination source : MacAddr) (mmtype : Mmtype)
    (encode : Nat → Except SlacError (List UInt8)) : Except SlacError Outgoing := do
  let payload ← encode maxFrameLen
  let bytes ← writeFrame maxFrameLen destination source mmv mmtype payload
  return { destination, frame := bytes }

/-- The frame goes to `destination`, comes from `source`, and holds `payload` under `mmtype`. -/
structure Outgoing.Carries (o : Outgoing) (destination source : MacAddr) (mmtype : Mmtype)
    (payload : List UInt8) : Prop where
  destination_eq : o.destination = destination
  parses : ∃ padding,
    parseFrame o.frame = .ok ⟨destination, source, mmv, mmtype, payload ++ padding⟩

theorem Outgoing.Carries.mmtype_eq {o : Outgoing} {destination source : MacAddr} {mmtype : Mmtype}
    {payload : List UInt8} (h : o.Carries destination source mmtype payload) {f : Frame}
    (hparse : parseFrame o.frame = .ok f) : f.mmtype = mmtype := by
  obtain ⟨padding, hparses⟩ := h.parses
  rw [hparse] at hparses
  cases hparses
  rfl

/-- A message that is written and fits a frame is framed, and the frame carries it. -/
theorem frame_carries (destination source : MacAddr) {mmtype : Mmtype}
    {encode : Nat → Except SlacError (List UInt8)} {payload : List UInt8}
    (hencode : encode maxFrameLen = .ok payload) (hlen : payload.length ≤ 173)
    (htype : Mmtype.fromU16 mmtype.asU16 = mmtype) :
    ∃ o, frame destination source mmtype encode = .ok o
      ∧ o.Carries destination source mmtype payload := by
  cases hwrite : writeFrame maxFrameLen destination source mmv mmtype payload with
  | error e =>
    -- the header of an AV 1.1 frame is 19 bytes, so there is room
    unfold writeFrame at hwrite
    have hfits : ¬ maxFrameLen < max (ethernetHeaderLen + 3 + mmv.fragmentationLen + payload.length)
        minFrameLen := by
      simp only [maxFrameLen, ethernetHeaderLen, minFrameLen, mmv, Mmv.fragmentationLen]
      omega
    rw [if_neg hfits] at hwrite
    cases hwrite
  | ok bytes =>
    obtain ⟨padding, hparse⟩ := parseFrame_writeFrame hwrite
    rw [htype] at hparse
    refine ⟨⟨destination, bytes⟩, ?_, rfl, padding, hparse⟩
    unfold frame
    rw [hencode]
    show (writeFrame maxFrameLen destination source mmv mmtype payload >>= _) = _
    rw [hwrite]
    rfl

/-- The bytes of a frame around the message `encode` writes, as they stand on the medium. -/
def wire (destination source : MacAddr) (mmtype : Mmtype)
    (encode : Nat → Except SlacError (List UInt8)) : List UInt8 :=
  match frame destination source mmtype encode with
  | .ok o => o.frame
  | .error _ => []

/-! ## Frames in

Whatever is not a frame for this engine, or does not decode, is dropped without a word. -/

/-- A message of a matching run, as it was received. -/
inductive Message where
  | parmReq (m : SlacParmReq)
  | parmCnf (m : SlacParmCnf)
  | startAtten (m : StartAttenCharInd)
  | sound (m : MnbcSoundInd)
  | attenInd (m : AttenCharInd)
  | attenRsp (m : AttenCharRsp)
  | matchReq (m : SlacMatchReq)
  | matchCnf (m : SlacMatchCnf)
  deriving DecidableEq

/-- Parses a frame, or drops it. -/
def acceptFrame (raw : List UInt8) : Option Frame := (parseFrame raw).toOption

/-- A frame that framed but did not decode is dropped too. -/
def decoded {α : Type} (result : Except SlacError α) : Option α := result.toOption

/-- What a frame says, and the Ethernet source it says it from. Each engine acts on some of
these messages and leaves the rest to others. -/
def receive (raw : List UInt8) : Option (MacAddr × Message) :=
  (acceptFrame raw).bind fun f =>
    let message : Option Message :=
      match f.mmtype with
      | .slacParmReq => (decoded (SlacParmReq.decode f.payload)).map .parmReq
      | .slacParmCnf => (decoded (SlacParmCnf.decode f.payload)).map .parmCnf
      | .startAttenCharInd => (decoded (StartAttenCharInd.decode f.payload)).map .startAtten
      | .mnbcSoundInd => (decoded (MnbcSoundInd.decode f.payload)).map .sound
      | .attenCharInd => (decoded (AttenCharInd.decode f.payload)).map .attenInd
      | .attenCharRsp => (decoded (AttenCharRsp.decode f.payload)).map .attenRsp
      | .slacMatchReq => (decoded (SlacMatchReq.decode f.payload)).map .matchReq
      | .slacMatchCnf => (decoded (SlacMatchCnf.decode f.payload)).map .matchCnf
      -- everything else on the medium is somebody else's
      | _ => none
    message.map fun m => (f.source, m)

/-! ## What a built frame says

From the two round trips: a frame built around a message says that message to whoever receives
it. -/

/-- The type a message travels under. -/
def Message.mmtype : Message → Mmtype
  | .parmReq _ => .slacParmReq
  | .parmCnf _ => .slacParmCnf
  | .startAtten _ => .startAttenCharInd
  | .sound _ => .mnbcSoundInd
  | .attenInd _ => .attenCharInd
  | .attenRsp _ => .attenCharRsp
  | .matchReq _ => .slacMatchReq
  | .matchCnf _ => .slacMatchCnf

/-- The record a message is written as. -/
def Message.fields : Message → Fields
  | .parmReq m => m.fields
  | .parmCnf m => m.fields
  | .startAtten m => m.fields
  | .sound m => m.fields
  | .attenInd m => m.fields
  | .attenRsp m => m.fields
  | .matchReq m => m.fields
  | .matchCnf m => m.fields

section Carries

variable {o : Outgoing} {destination source : MacAddr}

theorem Outgoing.Carries.accepted {mmtype : Mmtype} {payload : List UInt8}
    (h : o.Carries destination source mmtype payload) :
    ∃ padding,
      acceptFrame o.frame = some ⟨destination, source, mmv, mmtype, payload ++ padding⟩ := by
  obtain ⟨padding, hparse⟩ := h.parses
  refine ⟨padding, ?_⟩
  unfold acceptFrame
  rw [hparse]
  rfl

/-- A frame that carries a message says that message. Of a report, only one whose groups exist can
be written. -/
theorem Outgoing.Carries.receive_eq {m : Message}
    (h : o.Carries destination source m.mmtype m.fields.flatten)
    (hgroups : ∀ ind, m = .attenInd ind → ind.profile.numGroups.toNat ≤ aagLen) :
    receive o.frame = some (source, m) := by
  obtain ⟨padding, haccept⟩ := h.accepted
  unfold receive
  rw [haccept]
  cases m with
  | parmReq m => simp [Message.mmtype, Message.fields, m.decode_fields, decoded, Except.toOption]
  | parmCnf m => simp [Message.mmtype, Message.fields, m.decode_fields, decoded, Except.toOption]
  | startAtten m =>
    simp [Message.mmtype, Message.fields, m.decode_fields, decoded, Except.toOption]
  | sound m => simp [Message.mmtype, Message.fields, m.decode_fields, decoded, Except.toOption]
  | attenInd m =>
    have hdecode := m.decode_fields (hgroups m rfl)
    simp [Message.mmtype, Message.fields, hdecode, decoded, Except.toOption]
  | attenRsp m => simp [Message.mmtype, Message.fields, m.decode_fields, decoded, Except.toOption]
  | matchReq m => simp [Message.mmtype, Message.fields, m.decode_fields, decoded, Except.toOption]
  | matchCnf m => simp [Message.mmtype, Message.fields, m.decode_fields, decoded, Except.toOption]

/-- What a frame says, it says under the type it carries. -/
theorem Outgoing.Carries.mmtype_of_receive {mmtype : Mmtype} {payload : List UInt8}
    (h : o.Carries destination source mmtype payload) {source' : MacAddr} {m : Message}
    (hr : receive o.frame = some (source', m)) : m.mmtype = mmtype := by
  obtain ⟨padding, haccept⟩ := h.accepted
  unfold receive at hr
  rw [haccept] at hr
  simp only [Option.bind_some, Option.map_eq_some_iff, Prod.mk.injEq] at hr
  obtain ⟨m', hm, -, rfl⟩ := hr
  -- one case per type a message is decoded under, and one for every other type
  split at hm
  case h_9 => cases hm
  all_goals
    obtain ⟨_, -, rfl⟩ := Option.map_eq_some_iff.mp hm
    rfl

end Carries

end Iso15118.Slac
