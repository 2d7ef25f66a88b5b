import Iso15118.Slac.Frame
import Mathlib.Algebra.GroupWithZero.Nat

/-!
# The SLAC management messages

`slac/message.rs`: every message is a fixed-layout byte record with little-endian integers.
Messages arrive zero-padded to the Ethernet minimum, so `decode` accepts a payload at least as
long as what it reads and ignores the rest.

Each message has its `encode` into a buffer of a given capacity, its `decode`, its **`fields`** —
the record as the bytes of one field after another — and two lemmas: **`encode_ok`**, a message
that fits is written as its fields, and **`decode_fields`**, those bytes decode to the message
whatever padding follows.
-/

namespace Iso15118.Slac

open Iso15118.Lib

/-! ## The cursors, with the errors of this codec

The readers and writers of `Lib.Wire` at this codec's error type, and the two bytes most messages
begin with. -/

abbrev Read := Reader SlacError

namespace Read

def array (n : Nat) : Read (Bytes n) := Reader.array .truncated n

def u8 : Read UInt8 := Reader.u8 .truncated

def u16le : Read UInt16 := Reader.u16le .truncated

def u32le : Read UInt32 := Reader.u32le .truncated

def skip (n : Nat) : Read Unit := Reader.skip .truncated n

/-- Reads and checks the `application_type` / `security_type` pair that opens most messages. Any
other pair changes the layout of what follows. -/
def profile : Read Unit := do
  let applicationType ← u8
  let securityType ← u8
  if applicationType ≠ applicationTypePevEvse ∨ securityType ≠ securityTypeNone then
    throw (.unsupportedProfile applicationType securityType)

end Read

/-- A writer for a message of `len` bytes at the front of a buffer of `capacity` bytes. -/
def writer (capacity len : Nat) : Except SlacError Writer := Writer.new .bufferTooSmall capacity len

/-- Writes the `application_type` / `security_type` pair. -/
def profile (w : Writer) : Writer := (w.u8 applicationTypePevEvse).u8 securityTypeNone

/-- The pair as it stands on the wire. -/
def profileBytes : List UInt8 := [applicationTypePevEvse, securityTypeNone]

theorem Read.profile_run (rest : List UInt8) :
    Read.profile.run (profileBytes ++ rest) = .ok ((), rest) := by
  unfold Read.profile Read.u8 profileBytes
  rw [List.cons_append, List.cons_append, List.nil_append,
    Reader.run_bind_ok (Reader.u8_run_cons _ _), Reader.run_bind_ok (Reader.u8_run_cons _ _)]
  rfl

/-- The bytes a message's fields are written as, in order. `encode_ok` says that they are the
record; the decoders read them back one by one. -/
abbrev Fields := List (List UInt8)

/-! ## Opening a run

The vehicle's request and the station's answer to it. -/

/-- `CM_SLAC_PARM.REQ`: the vehicle opens a matching run. -/
structure SlacParmReq where
  runId : RunId
  deriving DecidableEq

namespace SlacParmReq

def encode (m : SlacParmReq) (capacity : Nat) : Except SlacError (List UInt8) := do
  let w ← writer capacity 10
  return ((profile w).array m.runId).finish

def decode : List UInt8 → Except SlacError SlacParmReq := Reader.decode do
  Read.profile
  let runId ← Read.array 8
  return { runId }

/-- The record, field by field. -/
def fields (m : SlacParmReq) : Fields :=
  [profileBytes, m.runId.toList]

theorem encode_ok (m : SlacParmReq) {capacity : Nat} (h : 10 ≤ capacity) :
    m.encode capacity = .ok m.fields.flatten := by
  unfold encode writer
  rw [Writer.new_of_le h]
  simp [profile, profileBytes, Writer.array, Writer.u8, Writer.bytes, Writer.finish, fields,
    bind, Except.bind, pure, Except.pure]

theorem decode_fields (m : SlacParmReq) (rest : List UInt8) :
    decode (m.fields.flatten ++ rest) = .ok m := by
  unfold decode Reader.decode fields Read.array
  simp only [List.flatten_cons, List.flatten_nil, List.append_assoc, List.append_nil]
  simp only [Reader.run_bind_ok (Reader.array_run_append _ _),
    Reader.run_bind_ok (Read.profile_run _)]
  rfl

end SlacParmReq

/-- `CM_SLAC_PARM.CNF`: the charger accepts the run and states its parameters. -/
structure SlacParmCnf where
  mSoundTarget : MacAddr
  numSounds : UInt8
  timeout : UInt8
  respType : UInt8
  forwardingSta : MacAddr
  runId : RunId
  deriving DecidableEq

namespace SlacParmCnf

def encode (m : SlacParmCnf) (capacity : Nat) : Except SlacError (List UInt8) := do
  let w ← writer capacity 25
  let w := (((w.array m.mSoundTarget).u8 m.numSounds).u8 m.timeout).u8 m.respType
  return ((profile (w.array m.forwardingSta)).array m.runId).finish

def decode : List UInt8 → Except SlacError SlacParmCnf := Reader.decode do
  let mSoundTarget ← Read.array 6
  let numSounds ← Read.u8
  let timeout ← Read.u8
  let respType ← Read.u8
  let forwardingSta ← Read.array 6
  Read.profile
  let runId ← Read.array 8
  return { mSoundTarget, numSounds, timeout, respType, forwardingSta, runId }

/-- The record, field by field. -/
def fields (m : SlacParmCnf) : Fields :=
  [m.mSoundTarget.toList, [m.numSounds], [m.timeout], [m.respType], m.forwardingSta.toList,
    profileBytes, m.runId.toList]

theorem encode_ok (m : SlacParmCnf) {capacity : Nat} (h : 25 ≤ capacity) :
    m.encode capacity = .ok m.fields.flatten := by
  unfold encode writer
  rw [Writer.new_of_le h]
  simp [profile, profileBytes, Writer.array, Writer.u8, Writer.bytes, Writer.finish, fields,
    bind, Except.bind, pure, Except.pure]

theorem decode_fields (m : SlacParmCnf) (rest : List UInt8) :
    decode (m.fields.flatten ++ rest) = .ok m := by
  unfold decode Reader.decode fields Read.array Read.u8
  simp only [List.flatten_cons, List.flatten_nil, List.append_assoc, List.append_nil,
    List.cons_append, List.nil_append]
  simp only [Reader.run_bind_ok (Reader.array_run_append _ _),
    Reader.run_bind_ok (Reader.u8_run_cons _ _), Reader.run_bind_ok (Read.profile_run _)]
  rfl

end SlacParmCnf

/-! ## The sounding burst

Its announcement, and the packets it consists of. -/

/-- `CM_START_ATTEN_CHAR.IND`: the vehicle announces the sounding burst. -/
structure StartAttenCharInd where
  numSounds : UInt8
  timeout : UInt8
  respType : UInt8
  forwardingSta : MacAddr
  runId : RunId
  deriving DecidableEq

namespace StartAttenCharInd

def encode (m : StartAttenCharInd) (capacity : Nat) : Except SlacError (List UInt8) := do
  let w ← writer capacity 19
  let w := (((profile w).u8 m.numSounds).u8 m.timeout).u8 m.respType
  return ((w.array m.forwardingSta).array m.runId).finish

def decode : List UInt8 → Except SlacError StartAttenCharInd := Reader.decode do
  Read.profile
  let numSounds ← Read.u8
  let timeout ← Read.u8
  let respType ← Read.u8
  let forwardingSta ← Read.array 6
  let runId ← Read.array 8
  return { numSounds, timeout, respType, forwardingSta, runId }

/-- The record, field by field. -/
def fields (m : StartAttenCharInd) : Fields :=
  [profileBytes, [m.numSounds], [m.timeout], [m.respType], m.forwardingSta.toList,
    m.runId.toList]

theorem encode_ok (m : StartAttenCharInd) {capacity : Nat} (h : 19 ≤ capacity) :
    m.encode capacity = .ok m.fields.flatten := by
  unfold encode writer
  rw [Writer.new_of_le h]
  simp [profile, profileBytes, Writer.array, Writer.u8, Writer.bytes, Writer.finish, fields,
    bind, Except.bind, pure, Except.pure]

theorem decode_fields (m : StartAttenCharInd) (rest : List UInt8) :
    decode (m.fields.flatten ++ rest) = .ok m := by
  unfold decode Reader.decode fields Read.array Read.u8
  simp only [List.flatten_cons, List.flatten_nil, List.append_assoc, List.append_nil,
    List.cons_append, List.nil_append]
  simp only [Reader.run_bind_ok (Reader.array_run_append _ _),
    Reader.run_bind_ok (Reader.u8_run_cons _ _), Reader.run_bind_ok (Read.profile_run _)]
  rfl

end StartAttenCharInd

/-- `CM_MNBC_SOUND.IND`: one sounding packet. -/
structure MnbcSoundInd where
  senderId : StationId
  remainingSoundCount : UInt8
  runId : RunId
  random : Bytes 16
  deriving DecidableEq

namespace MnbcSoundInd

def encode (m : MnbcSoundInd) (capacity : Nat) : Except SlacError (List UInt8) := do
  let w ← writer capacity 52
  let w := (((profile w).array m.senderId).u8 m.remainingSoundCount).array m.runId
  -- The run id field is 16 bytes wide here; the upper half is unused.
  return ((w.skip 8).array m.random).finish

def decode : List UInt8 → Except SlacError MnbcSoundInd := Reader.decode do
  Read.profile
  let senderId ← Read.array 17
  let remainingSoundCount ← Read.u8
  let runId ← Read.array 8
  Read.skip 8
  let random ← Read.array 16
  return { senderId, remainingSoundCount, runId, random }

/-- The record, field by field. -/
def fields (m : MnbcSoundInd) : Fields :=
  [profileBytes, m.senderId.toList, [m.remainingSoundCount], m.runId.toList, List.replicate 8
    0, m.random.toList]

theorem encode_ok (m : MnbcSoundInd) {capacity : Nat} (h : 52 ≤ capacity) :
    m.encode capacity = .ok m.fields.flatten := by
  unfold encode writer
  rw [Writer.new_of_le h]
  simp [profile, profileBytes, Writer.array, Writer.u8, Writer.skip, Writer.bytes,
    Writer.finish, fields, bind, Except.bind, pure, Except.pure]

theorem decode_fields (m : MnbcSoundInd) (rest : List UInt8) :
    decode (m.fields.flatten ++ rest) = .ok m := by
  unfold decode Reader.decode fields Read.array Read.u8 Read.skip
  simp only [List.flatten_cons, List.flatten_nil, List.append_assoc, List.append_nil,
    List.cons_append, List.nil_append]
  simp only [Reader.run_bind_ok (Reader.array_run_append _ _),
    Reader.run_bind_ok (Reader.u8_run_cons _ _),
    Reader.run_bind_ok (Reader.skip_run_replicate _ _), Reader.run_bind_ok (Read.profile_run _)]
  rfl

end MnbcSoundInd

/-! ## The measurement

A profile of the carrier groups, in a report and its acknowledgement. Its number of groups is the
only field of a message that a writer checks. -/

/-- An attenuation profile: the average attenuation per OFDM carrier group. -/
structure AttenProfile where
  numGroups : UInt8
  aag : Bytes aagLen
  deriving DecidableEq

namespace AttenProfile

/-- The meaningful part of the measurement, clamped to the groups that exist. -/
def groups (p : AttenProfile) : List UInt8 := p.aag.toList.take (min p.numGroups.toNat aagLen)

/-- Mean attenuation across the reported groups, in dB. -/
def meanAttenuation (p : AttenProfile) : Option UInt8 :=
  if p.groups.isEmpty then none
  else some (UInt8.ofNat ((p.groups.map UInt8.toNat).sum / p.groups.length))

def validate (numGroups : UInt8) : Except SlacError Unit :=
  if numGroups.toNat > aagLen then .error (.tooManyGroups numGroups) else .ok ()

theorem validate_ok {numGroups : UInt8} (h : numGroups.toNat ≤ aagLen) :
    validate numGroups = .ok () := if_neg (Nat.not_lt.mpr h)

theorem validate_run {numGroups : UInt8} (h : numGroups.toNat ≤ aagLen) (rest : List UInt8) :
    (liftM (validate numGroups) : Read Unit).run rest = .ok ((), rest) := by
  rw [validate_ok h]
  rfl

end AttenProfile

/-- `CM_ATTEN_CHAR.IND`: the charger reports what it measured. -/
structure AttenCharInd where
  sourceAddress : MacAddr
  runId : RunId
  sourceId : StationId
  respId : StationId
  numSounds : UInt8
  profile : AttenProfile
  deriving DecidableEq

namespace AttenCharInd

def encode (m : AttenCharInd) (capacity : Nat) : Except SlacError (List UInt8) := do
  AttenProfile.validate m.profile.numGroups
  let w ← writer capacity 110
  let w := (((Slac.profile w).array m.sourceAddress).array m.runId).array m.sourceId
  let w := ((w.array m.respId).u8 m.numSounds).u8 m.profile.numGroups
  return (w.array m.profile.aag).finish

def decode : List UInt8 → Except SlacError AttenCharInd := Reader.decode do
  Read.profile
  let sourceAddress ← Read.array 6
  let runId ← Read.array 8
  let sourceId ← Read.array 17
  let respId ← Read.array 17
  let numSounds ← Read.u8
  let numGroups ← Read.u8
  AttenProfile.validate numGroups
  let aag ← Read.array aagLen
  return { sourceAddress, runId, sourceId, respId, numSounds, profile := { numGroups, aag } }

/-- The record, field by field. -/
def fields (m : AttenCharInd) : Fields :=
  [profileBytes, m.sourceAddress.toList, m.runId.toList, m.sourceId.toList, m.respId.toList,
    [m.numSounds], [m.profile.numGroups], m.profile.aag.toList]

theorem encode_ok (m : AttenCharInd) {capacity : Nat}
    (hgroups : m.profile.numGroups.toNat ≤ aagLen) (h : 110 ≤ capacity) :
    m.encode capacity = .ok m.fields.flatten := by
  unfold encode writer
  rw [AttenProfile.validate_ok hgroups, Writer.new_of_le h]
  simp [aagLen, Slac.profile, profileBytes, Writer.array, Writer.u8, Writer.bytes,
    Writer.finish, fields, bind, Except.bind, pure, Except.pure]

theorem decode_fields (m : AttenCharInd) (hgroups : m.profile.numGroups.toNat ≤ aagLen)
    (rest : List UInt8) :
    decode (m.fields.flatten ++ rest) = .ok m := by
  unfold decode Reader.decode fields Read.array Read.u8
  simp only [List.flatten_cons, List.flatten_nil, List.append_assoc, List.append_nil,
    List.cons_append, List.nil_append]
  simp only [Reader.run_bind_ok (Reader.array_run_append _ _),
    Reader.run_bind_ok (Reader.u8_run_cons _ _), Reader.run_bind_ok (Read.profile_run _),
    Reader.run_bind_ok (AttenProfile.validate_run hgroups _)]
  rfl

end AttenCharInd

/-- `CM_ATTEN_CHAR.RSP`: the vehicle acknowledges the measurement. -/
structure AttenCharRsp where
  sourceAddress : MacAddr
  runId : RunId
  sourceId : StationId
  respId : StationId
  result : UInt8
  deriving DecidableEq

namespace AttenCharRsp

def encode (m : AttenCharRsp) (capacity : Nat) : Except SlacError (List UInt8) := do
  let w ← writer capacity 51
  let w := (((profile w).array m.sourceAddress).array m.runId).array m.sourceId
  return ((w.array m.respId).u8 m.result).finish

def decode : List UInt8 → Except SlacError AttenCharRsp := Reader.decode do
  Read.profile
  let sourceAddress ← Read.array 6
  let runId ← Read.array 8
  let sourceId ← Read.array 17
  let respId ← Read.array 17
  let result ← Read.u8
  return { sourceAddress, runId, sourceId, respId, result }

/-- The record, field by field. -/
def fields (m : AttenCharRsp) : Fields :=
  [profileBytes, m.sourceAddress.toList, m.runId.toList, m.sourceId.toList, m.respId.toList,
    [m.result]]

theorem encode_ok (m : AttenCharRsp) {capacity : Nat} (h : 51 ≤ capacity) :
    m.encode capacity = .ok m.fields.flatten := by
  unfold encode writer
  rw [Writer.new_of_le h]
  simp [profile, profileBytes, Writer.array, Writer.u8, Writer.bytes, Writer.finish, fields,
    bind, Except.bind, pure, Except.pure]

theorem decode_fields (m : AttenCharRsp) (rest : List UInt8) :
    decode (m.fields.flatten ++ rest) = .ok m := by
  unfold decode Reader.decode fields Read.array Read.u8
  simp only [List.flatten_cons, List.flatten_nil, List.append_assoc, List.append_nil,
    List.cons_append, List.nil_append]
  simp only [Reader.run_bind_ok (Reader.array_run_append _ _),
    Reader.run_bind_ok (Reader.u8_run_cons _ _), Reader.run_bind_ok (Read.profile_run _)]
  rfl

end AttenCharRsp

/-- `CM_ATTEN_PROFILE.IND`: a modem-internal attenuation report. -/
structure AttenProfileInd where
  pevMac : MacAddr
  profile : AttenProfile
  deriving DecidableEq

namespace AttenProfileInd

def encode (m : AttenProfileInd) (capacity : Nat) : Except SlacError (List UInt8) := do
  AttenProfile.validate m.profile.numGroups
  let w ← writer capacity 66
  return ((((w.array m.pevMac).u8 m.profile.numGroups).skip 1).array m.profile.aag).finish

def decode : List UInt8 → Except SlacError AttenProfileInd := Reader.decode do
  let pevMac ← Read.array 6
  let numGroups ← Read.u8
  Read.skip 1
  AttenProfile.validate numGroups
  let aag ← Read.array aagLen
  return { pevMac, profile := { numGroups, aag } }

/-- The record, field by field. -/
def fields (m : AttenProfileInd) : Fields :=
  [m.pevMac.toList, [m.profile.numGroups], List.replicate 1 0, m.profile.aag.toList]

theorem encode_ok (m : AttenProfileInd) {capacity : Nat}
    (hgroups : m.profile.numGroups.toNat ≤ aagLen) (h : 66 ≤ capacity) :
    m.encode capacity = .ok m.fields.flatten := by
  unfold encode writer
  rw [AttenProfile.validate_ok hgroups, Writer.new_of_le h]
  simp [aagLen, Writer.array, Writer.u8, Writer.skip, Writer.bytes, Writer.finish, fields, bind,
    Except.bind, pure, Except.pure]

theorem decode_fields (m : AttenProfileInd) (hgroups : m.profile.numGroups.toNat ≤ aagLen)
    (rest : List UInt8) :
    decode (m.fields.flatten ++ rest) = .ok m := by
  unfold decode Reader.decode fields Read.array Read.u8 Read.skip
  simp only [List.flatten_cons, List.flatten_nil, List.append_assoc, List.append_nil,
    List.cons_append, List.nil_append]
  simp only [Reader.run_bind_ok (Reader.array_run_append _ _),
    Reader.run_bind_ok (Reader.u8_run_cons _ _),
    Reader.run_bind_ok (Reader.skip_run_replicate _ _),
    Reader.run_bind_ok (AttenProfile.validate_run hgroups _)]
  rfl

end AttenProfileInd

/-! ## The key

The request for a key and the confirmation that hands it over. -/

/-- `mvf_length` for `SlacMatchReq`: the 62 bytes that follow the field. -/
def matchReqMvfLength : UInt16 := 0x3E

/-- `mvf_length` for `SlacMatchCnf`: the 86 bytes that follow the field. -/
def matchCnfMvfLength : UInt16 := 0x56

/-- Reads an `mvf_length` field and checks it against the message's own. -/
def Read.mvfLength (expected : UInt16) : Read Unit := do
  let mvf ← Read.u16le
  if mvf ≠ expected then throw (.badLength mvf.toNat expected.toNat)

theorem Read.mvfLength_run (v : UInt16) (rest : List UInt8) :
    (Read.mvfLength v).run (u16ToLe v ++ rest) = .ok ((), rest) := by
  unfold Read.mvfLength Read.u16le
  rw [Reader.run_bind_ok (Reader.u16le_run_append _ _), if_neg (not_not.mpr rfl)]
  rfl

/-- `CM_SLAC_MATCH.REQ`: the vehicle picks its charger. -/
structure SlacMatchReq where
  pevId : StationId
  pevMac : MacAddr
  evseId : StationId
  evseMac : MacAddr
  runId : RunId
  deriving DecidableEq

namespace SlacMatchReq

def encode (m : SlacMatchReq) (capacity : Nat) : Except SlacError (List UInt8) := do
  let w ← writer capacity 66
  let w := (((profile w).u16le matchReqMvfLength).array m.pevId).array m.pevMac
  return ((((w.array m.evseId).array m.evseMac).array m.runId).skip 8).finish

/-- The trailing eight bytes of the record are not read. -/
def decode : List UInt8 → Except SlacError SlacMatchReq := Reader.decode do
  Read.profile
  Read.mvfLength matchReqMvfLength
  let pevId ← Read.array 17
  let pevMac ← Read.array 6
  let evseId ← Read.array 17
  let evseMac ← Read.array 6
  let runId ← Read.array 8
  return { pevId, pevMac, evseId, evseMac, runId }

/-- The record, field by field. -/
def fields (m : SlacMatchReq) : Fields :=
  [profileBytes, u16ToLe matchReqMvfLength, m.pevId.toList, m.pevMac.toList, m.evseId.toList,
    m.evseMac.toList, m.runId.toList, List.replicate 8 0]

theorem encode_ok (m : SlacMatchReq) {capacity : Nat} (h : 66 ≤ capacity) :
    m.encode capacity = .ok m.fields.flatten := by
  unfold encode writer
  rw [Writer.new_of_le h]
  simp [profile, profileBytes, Writer.array, Writer.u8, Writer.u16le, Writer.skip, Writer.bytes,
    Writer.finish, fields, bind, Except.bind, pure, Except.pure]

theorem decode_fields (m : SlacMatchReq) (rest : List UInt8) :
    decode (m.fields.flatten ++ rest) = .ok m := by
  unfold decode Reader.decode fields Read.array
  simp only [List.flatten_cons, List.flatten_nil, List.append_assoc, List.append_nil]
  simp only [Reader.run_bind_ok (Reader.array_run_append _ _),
    Reader.run_bind_ok (Read.mvfLength_run _ _), Reader.run_bind_ok (Read.profile_run _)]
  rfl

end SlacMatchReq

/-- `CM_SLAC_MATCH.CNF`: the charger hands over the network key. -/
structure SlacMatchCnf where
  pevId : StationId
  pevMac : MacAddr
  evseId : StationId
  evseMac : MacAddr
  runId : RunId
  nid : Nid
  nmk : Nmk
  deriving DecidableEq

namespace SlacMatchCnf

def encode (m : SlacMatchCnf) (capacity : Nat) : Except SlacError (List UInt8) := do
  let w ← writer capacity 90
  let w := (((profile w).u16le matchCnfMvfLength).array m.pevId).array m.pevMac
  let w := (((w.array m.evseId).array m.evseMac).array m.runId).skip 8
  return (((w.array m.nid).skip 1).array m.nmk).finish

def decode : List UInt8 → Except SlacError SlacMatchCnf := Reader.decode do
  Read.profile
  Read.mvfLength matchCnfMvfLength
  let pevId ← Read.array 17
  let pevMac ← Read.array 6
  let evseId ← Read.array 17
  let evseMac ← Read.array 6
  let runId ← Read.array 8
  Read.skip 8
  let nid ← Read.array 7
  Read.skip 1
  let nmk ← Read.array 16
  return { pevId, pevMac, evseId, evseMac, runId, nid, nmk }

/-- The record, field by field. -/
def fields (m : SlacMatchCnf) : Fields :=
  [profileBytes, u16ToLe matchCnfMvfLength, m.pevId.toList, m.pevMac.toList, m.evseId.toList,
    m.evseMac.toList, m.runId.toList, List.replicate 8 0, m.nid.toList, List.replicate 1 0,
    m.nmk.toList]

theorem encode_ok (m : SlacMatchCnf) {capacity : Nat} (h : 90 ≤ capacity) :
    m.encode capacity = .ok m.fields.flatten := by
  unfold encode writer
  rw [Writer.new_of_le h]
  simp [profile, profileBytes, Writer.array, Writer.u8, Writer.u16le, Writer.skip, Writer.bytes,
    Writer.finish, fields, bind, Except.bind, pure, Except.pure]

theorem decode_fields (m : SlacMatchCnf) (rest : List UInt8) :
    decode (m.fields.flatten ++ rest) = .ok m := by
  unfold decode Reader.decode fields Read.array Read.skip
  simp only [List.flatten_cons, List.flatten_nil, List.append_assoc, List.append_nil]
  simp only [Reader.run_bind_ok (Reader.array_run_append _ _),
    Reader.run_bind_ok (Reader.skip_run_replicate _ _),
    Reader.run_bind_ok (Read.mvfLength_run _ _), Reader.run_bind_ok (Read.profile_run _)]
  rfl

end SlacMatchCnf

/-! ## The control pilot

A message and its answer, which neither engine takes in. -/

/-- `CM_VALIDATE.REQ`: control-pilot toggle validation. -/
structure ValidateReq where
  signalType : UInt8
  timer : UInt8
  result : UInt8
  deriving DecidableEq

namespace ValidateReq

def encode (m : ValidateReq) (capacity : Nat) : Except SlacError (List UInt8) := do
  let w ← writer capacity 3
  return (((w.u8 m.signalType).u8 m.timer).u8 m.result).finish

def decode : List UInt8 → Except SlacError ValidateReq := Reader.decode do
  let signalType ← Read.u8
  let timer ← Read.u8
  let result ← Read.u8
  return { signalType, timer, result }

/-- The record, field by field. -/
def fields (m : ValidateReq) : Fields := [[m.signalType], [m.timer], [m.result]]

theorem encode_ok (m : ValidateReq) {capacity : Nat} (h : 3 ≤ capacity) :
    m.encode capacity = .ok m.fields.flatten := by
  unfold encode writer
  rw [Writer.new_of_le h]
  simp [Writer.u8, Writer.bytes, Writer.finish, fields, bind, Except.bind, pure, Except.pure]

theorem decode_fields (m : ValidateReq) (rest : List UInt8) :
    decode (m.fields.flatten ++ rest) = .ok m := by
  unfold decode Reader.decode fields Read.u8
  simp only [List.flatten_cons, List.flatten_nil, List.append_nil, List.cons_append,
    List.nil_append]
  simp only [Reader.run_bind_ok (Reader.u8_run_cons _ _)]
  rfl

end ValidateReq

/-- `CM_VALIDATE.CNF`. -/
structure ValidateCnf where
  signalType : UInt8
  toggleNum : UInt8
  result : UInt8
  deriving DecidableEq

namespace ValidateCnf

def encode (m : ValidateCnf) (capacity : Nat) : Except SlacError (List UInt8) := do
  let w ← writer capacity 3
  return (((w.u8 m.signalType).u8 m.toggleNum).u8 m.result).finish

def decode : List UInt8 → Except SlacError ValidateCnf := Reader.decode do
  let signalType ← Read.u8
  let toggleNum ← Read.u8
  let result ← Read.u8
  return { signalType, toggleNum, result }

/-- The record, field by field. -/
def fields (m : ValidateCnf) : Fields := [[m.signalType], [m.toggleNum], [m.result]]

theorem encode_ok (m : ValidateCnf) {capacity : Nat} (h : 3 ≤ capacity) :
    m.encode capacity = .ok m.fields.flatten := by
  unfold encode writer
  rw [Writer.new_of_le h]
  simp [Writer.u8, Writer.bytes, Writer.finish, fields, bind, Except.bind, pure, Except.pure]

theorem decode_fields (m : ValidateCnf) (rest : List UInt8) :
    decode (m.fields.flatten ++ rest) = .ok m := by
  unfold decode Reader.decode fields Read.u8
  simp only [List.flatten_cons, List.flatten_nil, List.append_nil, List.cons_append,
    List.nil_append]
  simp only [Reader.run_bind_ok (Reader.u8_run_cons _ _)]
  rfl

end ValidateCnf

/-! ## The host's own modem

How a key is handed to the modem of one's own, once there is one. -/

/-- `CM_SET_KEY.REQ`: install a network key in the local modem. -/
structure SetKeyReq where
  keyType : UInt8
  myNonce : UInt32
  yourNonce : UInt32
  pid : UInt8
  prn : UInt16
  pmn : UInt8
  ccoCapability : UInt8
  nid : Nid
  newEks : UInt8
  newKey : Nmk
  deriving DecidableEq

namespace SetKeyReq

def encode (m : SetKeyReq) (capacity : Nat) : Except SlacError (List UInt8) := do
  let w ← writer capacity 38
  let w := ((((w.u8 m.keyType).u32le m.myNonce).u32le m.yourNonce).u8 m.pid).u16le m.prn
  return (((((w.u8 m.pmn).u8 m.ccoCapability).array m.nid).u8 m.newEks).array m.newKey).finish

def decode : List UInt8 → Except SlacError SetKeyReq := Reader.decode do
  let keyType ← Read.u8
  let myNonce ← Read.u32le
  let yourNonce ← Read.u32le
  let pid ← Read.u8
  let prn ← Read.u16le
  let pmn ← Read.u8
  let ccoCapability ← Read.u8
  let nid ← Read.array 7
  let newEks ← Read.u8
  let newKey ← Read.array 16
  return { keyType, myNonce, yourNonce, pid, prn, pmn, ccoCapability, nid, newEks, newKey }

/-- The record, field by field. -/
def fields (m : SetKeyReq) : Fields :=
  [[m.keyType], u32ToLe m.myNonce, u32ToLe m.yourNonce, [m.pid], u16ToLe m.prn, [m.pmn],
    [m.ccoCapability], m.nid.toList, [m.newEks], m.newKey.toList]

theorem encode_ok (m : SetKeyReq) {capacity : Nat} (h : 38 ≤ capacity) :
    m.encode capacity = .ok m.fields.flatten := by
  unfold encode writer
  rw [Writer.new_of_le h]
  simp [Writer.array, Writer.u8, Writer.u16le, Writer.u32le, Writer.bytes, Writer.finish, fields,
    bind, Except.bind, pure, Except.pure]

theorem decode_fields (m : SetKeyReq) (rest : List UInt8) :
    decode (m.fields.flatten ++ rest) = .ok m := by
  unfold decode Reader.decode fields Read.array Read.u8 Read.u16le Read.u32le
  simp only [List.flatten_cons, List.flatten_nil, List.append_assoc, List.append_nil,
    List.cons_append, List.nil_append]
  simp only [Reader.run_bind_ok (Reader.array_run_append _ _),
    Reader.run_bind_ok (Reader.u8_run_cons _ _), Reader.run_bind_ok (Reader.u16le_run_append _ _),
    Reader.run_bind_ok (Reader.u32le_run_append _ _)]
  rfl

end SetKeyReq

/-- `CM_SET_KEY.CNF`. -/
structure SetKeyCnf where
  result : UInt8
  myNonce : UInt32
  yourNonce : UInt32
  pid : UInt8
  prn : UInt16
  pmn : UInt8
  ccoCapability : UInt8
  deriving DecidableEq

namespace SetKeyCnf

def encode (m : SetKeyCnf) (capacity : Nat) : Except SlacError (List UInt8) := do
  let w ← writer capacity 14
  let w := (((w.u8 m.result).u32le m.myNonce).u32le m.yourNonce).u8 m.pid
  return (((w.u16le m.prn).u8 m.pmn).u8 m.ccoCapability).finish

def decode : List UInt8 → Except SlacError SetKeyCnf := Reader.decode do
  let result ← Read.u8
  let myNonce ← Read.u32le
  let yourNonce ← Read.u32le
  let pid ← Read.u8
  let prn ← Read.u16le
  let pmn ← Read.u8
  let ccoCapability ← Read.u8
  return { result, myNonce, yourNonce, pid, prn, pmn, ccoCapability }

/-- The record, field by field. -/
def fields (m : SetKeyCnf) : Fields :=
  [[m.result], u32ToLe m.myNonce, u32ToLe m.yourNonce, [m.pid], u16ToLe m.prn, [m.pmn],
    [m.ccoCapability]]

theorem encode_ok (m : SetKeyCnf) {capacity : Nat} (h : 14 ≤ capacity) :
    m.encode capacity = .ok m.fields.flatten := by
  unfold encode writer
  rw [Writer.new_of_le h]
  simp [Writer.u8, Writer.u16le, Writer.u32le, Writer.bytes, Writer.finish, fields, bind,
    Except.bind, pure, Except.pure]

theorem decode_fields (m : SetKeyCnf) (rest : List UInt8) :
    decode (m.fields.flatten ++ rest) = .ok m := by
  unfold decode Reader.decode fields Read.u8 Read.u16le Read.u32le
  simp only [List.flatten_cons, List.flatten_nil, List.append_assoc, List.append_nil,
    List.cons_append, List.nil_append]
  simp only [Reader.run_bind_ok (Reader.u8_run_cons _ _),
    Reader.run_bind_ok (Reader.u16le_run_append _ _),
    Reader.run_bind_ok (Reader.u32le_run_append _ _)]
  rfl

end SetKeyCnf

end Iso15118.Slac
