import Iso15118.Exi.Header
import Iso15118.Protocol

/-!
# The handshake on the wire

The codec of `app_protocol.rs`: the one hand-written grammar. A state that permits exactly one event
costs a bit, and the states behind the first entry, which permit the end as well, cost two.

**`handshake_roundtrip`** — every valid request and every response is decoded to what was encoded,
in either coding; no bytes are both; and what is accepted is valid, and is its own encoding's
decoding again.
-/

namespace Iso15118.AppProtocol

open Iso15118.Lib
open Iso15118.Exi

/-! ## The facets

The schema's limits and the widths of its event codes, as the constants of the source. `validate`
is where they bind a writer; a reader gets some of them from the codes alone, and checks the
others. -/

/-- `MAX_NAMESPACE_LEN`. -/
def maxNamespaceLen : Nat := 100

/-- `NAMESPACE_LEN`. -/
def namespaceLen : Lengths := ⟨0, maxNamespaceLen⟩

/-- `MAX_PRIORITY`. -/
def maxPriority : UInt8 := 20

/-- `CTX_PROTOCOL_NAMESPACE`. -/
def ctxProtocolNamespace : ValueCtx := ⟨0⟩

/-- `W_ROOT`: `supportedAppProtocolReq`, `supportedAppProtocolRes` or anything. -/
def wRoot : Nat := 2

/-- `EC_REQ`. -/
def ecReq : Nat := 0

/-- `EC_RES`. -/
def ecRes : Nat := 1

/-- `W_ONE`. -/
def wOne : Nat := 1

/-- `W_TWO`. -/
def wTwo : Nat := 2

/-- `W_RESPONSE_CODE`. -/
def wResponseCode : Nat := 2

/-- `SCHEMA_ID_RANGE`. -/
def schemaIdRange : Int64 × Int64 := (0, 255)

/-- `PRIORITY_RANGE`. -/
def priorityRange : Int64 × Int64 := (1, 20)

/-- What validation reports, out of `Error`. -/
inductive Error where
  | invalidValue (field : String)
  | tooManyItems (field : String) (count max : Nat)
  | tooFewItems (field : String) (count min : Nat)
  deriving DecidableEq, Repr

/-- `AppProtocol::validate`. -/
def Entry.validate (p : Entry) : Except Error Unit :=
  if p.protocolNamespace.length > maxNamespaceLen then
    .error (.invalidValue "AppProtocol.ProtocolNamespace")
  else if ¬ (1 ≤ p.priority ∧ p.priority ≤ maxPriority) then
    .error (.invalidValue "AppProtocol.Priority")
  else .ok ()

/-- `SupportedAppProtocolReq::validate`. -/
def Req.validate (req : Req) : Except Error Unit :=
  if req.appProtocols = [] then
    .error (.tooFewItems "supportedAppProtocolReq.AppProtocol" 0 1)
  else if req.appProtocols.length > maxAppProtocols then
    .error (.tooManyItems "supportedAppProtocolReq.AppProtocol" req.appProtocols.length
      maxAppProtocols)
  else req.appProtocols.forM Entry.validate

/-! ## An entry

Four mandatory elements in a fixed order. Each is a start, a value and an end, of one bit apiece,
so what the entry carries is put together from its elements, and what a reader yields passed the
check of its own element. -/

/-- The event codes around the value of an element: its start, its content and its end. -/
def encodeElement (value : EStateM ExiError Encoder Unit) : EStateM ExiError Encoder Unit := do
  Encoder.event 0 wOne
  Encoder.event 0 wOne
  value
  Encoder.event 0 wOne

/-- `expect`. -/
def expect (width code : Nat) : EStateM ExiError Decoder Unit := do
  if (← Decoder.event width) = code then pure () else throw .unknownEventCode

/-- The event codes around the value of an element, and the value. -/
def decodeElement {α : Type} (value : EStateM ExiError Decoder α) : EStateM ExiError Decoder α := do
  expect wOne 0
  expect wOne 0
  let a ← value
  expect wOne 0
  return a

/-- `u32::try_from` of a version number. -/
def decodeVersionNumber : EStateM ExiError Decoder UInt32 := do
  let v ← Decoder.uint
  if v.toNat < 2 ^ 32 then return UInt32.ofNat v.toNat else throw .integerOverflow

/-- `u8::try_from` of a restricted integer. -/
def decodeRestricted (range : Int64 × Int64) : EStateM ExiError Decoder UInt8 := do
  let v ← Decoder.restricted range.1 range.2
  if 0 ≤ v.toInt ∧ v.toInt < 256 then return UInt8.ofNat v.toInt.toNat else throw .valueOutOfRange

/-- `Encoder::restricted` of a `u8`. -/
def encodeRestricted (v : UInt8) (range : Int64 × Int64) : EStateM ExiError Encoder Unit :=
  Encoder.restricted (Int64.ofNat v.toNat) range.1 range.2

/-- `AppProtocol::encode`. -/
def Entry.encode (p : Entry) : EStateM ExiError Encoder Unit := do
  Encoder.enter
  encodeElement (Encoder.string ctxProtocolNamespace p.protocolNamespace namespaceLen)
  encodeElement (Encoder.uint (UInt64.ofNat p.versionNumberMajor.toNat))
  encodeElement (Encoder.uint (UInt64.ofNat p.versionNumberMinor.toNat))
  encodeElement (encodeRestricted p.schemaId schemaIdRange)
  encodeElement (encodeRestricted p.priority priorityRange)
  Encoder.event 0 wOne
  Encoder.leave

/-- `AppProtocol::decode`. -/
def Entry.decode : EStateM ExiError Decoder Entry := do
  Decoder.enter
  let protocolNamespace ← decodeElement (Decoder.string ctxProtocolNamespace namespaceLen)
  let versionNumberMajor ← decodeElement decodeVersionNumber
  let versionNumberMinor ← decodeElement decodeVersionNumber
  let schemaId ← decodeElement (decodeRestricted schemaIdRange)
  -- five bits can express more than the schema permits
  let priority ← decodeElement (decodeRestricted priorityRange)
  expect wOne 0
  Decoder.leave
  return { protocolNamespace, versionNumberMajor, versionNumberMinor, schemaId, priority }

theorem carries_expect {k code width : Nat} (h : code < 2 ^ width) :
    Carries k k (Encoder.event code width) (expect width code) () := by
  refine (carries_event h).map ?_
  rw [if_pos rfl]

theorem carries_element {α : Type} {k : Nat} {write : EStateM ExiError Encoder Unit}
    {read : EStateM ExiError Decoder α} {a : α} (h : Carries k k write read a) :
    Carries k k (encodeElement write) (decodeElement read) a := by
  refine (carries_expect (by decide)).bind ?_
  refine (carries_expect (by decide)).bind ?_
  exact h.bind ((carries_expect (by decide)).map rfl)

theorem carries_versionNumber {k : Nat} (v : UInt32) :
    Carries k k (Encoder.uint (UInt64.ofNat v.toNat)) decodeVersionNumber v := by
  have hlt : v.toNat < 2 ^ 32 := v.toNat_lt
  have hback : (UInt64.ofNat v.toNat).toNat = v.toNat :=
    UInt64.toNat_ofNat_of_lt' (show v.toNat < 2 ^ 64 by omega)
  refine .of_gets (Encoder.puts_prim (puts_writeUint _))
    ((Decoder.gets_prim (gets_readUint _)).map ?_)
  rw [hback, if_pos hlt, UInt32.ofNat_toNat]

theorem carries_restricted {k : Nat} {range : Int64 × Int64} {v : UInt8}
    (h : range.1.toInt ≤ v.toNat ∧ v.toNat ≤ range.2.toInt) :
    Carries k k (encodeRestricted v range) (decodeRestricted range) v := by
  have hlt : v.toNat < 256 := v.toNat_lt
  have hback : (Int64.ofNat v.toNat).toInt = v.toNat := Int64.toInt_ofNat_of_lt (by omega)
  have hrange : range.1.toInt ≤ (Int64.ofNat v.toNat).toInt
      ∧ (Int64.ofNat v.toNat).toInt ≤ range.2.toInt := by
    rw [hback]
    exact h
  refine .of_gets ((roundTrips_restricted range.1 range.2).puts _ hrange)
    (((roundTrips_restricted range.1 range.2).gets _ hrange).map ?_)
  rw [hback, if_pos (by omega), Int.toNat_natCast, UInt8.ofNat_toNat]

/-- What passes validation, said of the numbers themselves. -/
theorem Entry.validate_iff {p : Entry} :
    p.validate = .ok () ↔ p.protocolNamespace.length ≤ maxNamespaceLen
      ∧ 1 ≤ p.priority.toNat ∧ p.priority.toNat ≤ 20 := by
  have hlow : 1 ≤ p.priority ↔ 1 ≤ p.priority.toNat := UInt8.le_iff_toNat_le
  have hhigh : p.priority ≤ maxPriority ↔ p.priority.toNat ≤ 20 := UInt8.le_iff_toNat_le
  unfold validate
  split
  · next hlong =>
    constructor
    · intro h
      cases h
    · omega
  · next hshort =>
    split
    · next hout =>
      rw [hlow, hhigh] at hout
      constructor
      · intro h
        cases h
      · omega
    · next hin =>
      rw [hlow, hhigh] at hin
      constructor
      · omega
      · intro _
        rfl

/-- A valid entry is read back. -/
theorem carries_entry {k : Nat} {p : Entry} (h : p.validate = .ok ()) (hk : k < maxDepth) :
    Carries k k p.encode Entry.decode p := by
  obtain ⟨hlen, hpriority⟩ := Entry.validate_iff.mp h
  have hlen : p.protocolNamespace.length ≤ 100 := hlen
  have hid : p.schemaId.toNat < 256 := p.schemaId.toNat_lt
  have hadmits : namespaceLen.admits p.protocolNamespace.length = true := by
    unfold Lengths.admits
    rw [Bool.and_eq_true, decide_eq_true_eq, decide_eq_true_eq]
    exact ⟨Nat.zero_le _, hlen⟩
  refine (carries_enter hk).bind ?_
  refine (carries_element (carries_string
    ⟨ctxProtocolNamespace, p.protocolNamespace, namespaceLen, by omega⟩ hadmits)).bind ?_
  refine (carries_element (carries_versionNumber p.versionNumberMajor)).bind ?_
  refine (carries_element (carries_versionNumber p.versionNumberMinor)).bind ?_
  refine (carries_element (carries_restricted (v := p.schemaId) ⟨?_, ?_⟩)).bind ?_
  · exact Int.natCast_nonneg _
  · show (p.schemaId.toNat : Int) ≤ 255
    omega
  refine (carries_element (carries_restricted (v := p.priority) ⟨?_, ?_⟩)).bind ?_
  · show (1 : Int) ≤ p.priority.toNat
    omega
  · show (p.priority.toNat : Int) ≤ 20
    omega
  refine (carries_expect (by decide)).bind ?_
  exact carries_leave.map rfl

/-- What is read of an entry is valid. -/
theorem yields_entry : Yields Entry.decode fun p => p.validate = .ok () := by
  have helement : ∀ {α : Type} {read : EStateM ExiError Decoder α} {P : α → Prop},
      Yields read P → Yields (decodeElement read) P := by
    intro α read P h
    refine (Yields.true _).bind fun _ _ => (Yields.true _).bind fun _ _ => h.bind fun a ha => ?_
    exact (Yields.true _).bind fun _ _ => Yields.pure ha
  have hnamespace : Yields (Decoder.string ctxProtocolNamespace namespaceLen)
      fun value => value.length ≤ maxNamespaceLen := by
    intro d value d' hok
    obtain ⟨value', d₁, -, hcheck⟩ := bind_ok.mp hok
    obtain ⟨u, d₂, hadmits, hpure⟩ := bind_ok.mp hcheck
    cases hpure
    exact le_max_of_admits (Lengths.admits_of_check hadmits).1
  have hpriority : Yields (decodeRestricted priorityRange)
      fun v => 1 ≤ v.toNat ∧ v.toNat ≤ 20 := by
    refine (roundTrips_restricted _ _).yields.bind fun v hv => ?_
    have hlow : (1 : Int) ≤ v.toInt := hv.1
    have hhigh : v.toInt ≤ 20 := hv.2
    rw [if_pos (by omega)]
    refine Yields.pure ?_
    rw [UInt8.toNat_ofNat_of_lt' (show v.toInt.toNat < 256 by omega)]
    omega
  refine (Yields.true _).bind fun _ _ => (helement hnamespace).bind fun value hvalue => ?_
  refine (Yields.true _).bind fun _ _ => (Yields.true _).bind fun _ _ => ?_
  refine (Yields.true _).bind fun _ _ => (helement hpriority).bind fun v hv => ?_
  refine (Yields.true _).bind fun _ _ => (Yields.true _).bind fun _ _ => ?_
  exact Yields.pure (Entry.validate_iff.mpr ⟨hvalue, hv⟩)

/-! ## The request

The one place where the width of a code depends on what was written before: from the second entry
on a state offers another entry or the end. Writer and reader count down the same number, and the
loop is followed by induction on what is left of it. -/

/-- The entries from the `i`th on. The first one is mandatory, so that its state offers nothing
else. -/
def encodeEntries : Nat → List Entry → EStateM ExiError Encoder Unit
  | _, [] => pure ()
  | i, p :: ps => do
      Encoder.event 0 (if i = 0 then wOne else wTwo)
      p.encode
      encodeEntries (i + 1) ps

/-- The end of a request: after the twentieth entry the grammar permits nothing else. -/
def encodeEnd (count : Nat) : EStateM ExiError Encoder Unit :=
  if count = maxAppProtocols then Encoder.event 0 wOne else Encoder.event 1 wTwo

/-- What `to_slice_with` of a request writes. -/
def Req.encode (req : Req) : EStateM ExiError Encoder Unit := do
  Encoder.header .iso15118
  Encoder.event ecReq wRoot
  encodeEntries 0 req.appProtocols
  encodeEnd req.appProtocols.length

/-- `SupportedAppProtocolReq::to_slice_with`. -/
def Req.toSliceWith (req : Req) (buf : List UInt8) (coding : ValueCoding) :
    Except ExiError (List UInt8) :=
  if req.appProtocols = [] ∨ req.appProtocols.length > maxAppProtocols then .error .valueTooLong
  else encodeInto req.encode buf coding

/-- The loop of `from_bytes`, where `n` more entries are permitted. -/
def decodeMore : Nat → EStateM ExiError Decoder (List Entry)
  | 0 => do
      expect wOne 0
      return []
  | n + 1 => do
      match ← Decoder.event wTwo with
      | 0 =>
          let p ← Entry.decode
          let ps ← decodeMore n
          return p :: ps
      | 1 => return []
      | _ => throw .unknownEventCode

/-- What `from_bytes` of a request reads. -/
def Req.decode : EStateM ExiError Decoder Req := do
  let _ ← Decoder.header
  expect wRoot ecReq
  expect wOne 0
  let p ← Entry.decode
  let ps ← decodeMore (maxAppProtocols - 1)
  return ⟨p :: ps⟩

/-- `SupportedAppProtocolReq::from_bytes`. -/
def Req.fromBytes (bytes : List UInt8) : Except ExiError Req := decodeFrom Req.decode bytes

/-- What passes validation has between one and twenty entries, each of them valid. -/
theorem Req.validate_iff {req : Req} :
    req.validate = .ok () ↔ req.appProtocols ≠ [] ∧ req.appProtocols.length ≤ maxAppProtocols
      ∧ ∀ p ∈ req.appProtocols, p.validate = .ok () := by
  have hall : ∀ ps : List Entry, ps.forM Entry.validate = .ok ()
      ↔ ∀ p ∈ ps, p.validate = .ok () := by
    intro ps
    induction ps with
    | nil =>
      constructor
      · intro _ p hp
        cases hp
      · intro _
        rfl
    | cons p ps ih =>
      rw [List.forall_mem_cons, ← ih]
      show (p.validate >>= fun _ => ps.forM Entry.validate) = _ ↔ _
      -- the first entry that fails is the answer
      cases p.validate with
      | ok u => exact ⟨fun h => ⟨rfl, h⟩, fun h => h.2⟩
      | error e =>
        constructor
        · intro h
          cases h
        · intro h
          cases h.1
  -- none, too many, and only then the entries themselves
  unfold validate
  split
  · next hnone =>
    constructor
    · intro h
      cases h
    · exact fun h => absurd hnone h.1
  · next hsome =>
    split
    · next hlong =>
      constructor
      · intro h
        cases h
      · omega
    · next hshort =>
      rw [hall]
      exact ⟨fun h => ⟨hsome, by omega, h⟩, fun h => h.2.2⟩

/-- The entries behind the first one, and the end: where `i` entries are there already, the reader
lets through as many as are left to twenty. -/
theorem carries_more {k : Nat} (hk : k < maxDepth) (ps : List Entry) (i : Nat) (hi : 0 < i)
    (hmost : i + ps.length ≤ maxAppProtocols) (h : ∀ p ∈ ps, p.validate = .ok ()) :
    Carries k k (encodeEntries i ps >>= fun _ => encodeEnd (i + ps.length))
      (decodeMore (maxAppProtocols - i)) ps := by
  induction ps generalizing i with
  | nil =>
    rw [List.length_nil, Nat.add_zero] at hmost ⊢
    show Carries k k (encodeEnd i) (decodeMore (maxAppProtocols - i)) []
    unfold encodeEnd
    by_cases hfull : i = maxAppProtocols
    · rw [if_pos hfull, hfull, Nat.sub_self]
      exact (carries_expect (by decide)).map rfl
    · rw [if_neg hfull, show maxAppProtocols - i = maxAppProtocols - i - 1 + 1 by omega]
      exact (carries_event (by decide)).map rfl
  | cons p ps ih =>
    rw [List.length_cons] at hmost ⊢
    have hmore := ih (i + 1) (by omega) (by omega) fun q hq => h q (List.mem_cons_of_mem p hq)
    rw [show i + 1 + ps.length = i + (ps.length + 1) by omega] at hmore
    rw [show maxAppProtocols - i = maxAppProtocols - (i + 1) + 1 by omega]
    show Carries k k ((_ >>= fun _ => p.encode >>= fun _ => encodeEntries (i + 1) ps) >>= _) _ _
    rw [bind_assoc, if_neg (by omega)]
    refine (carries_event (show 0 < 2 ^ wTwo by decide)).bind ?_
    rw [bind_assoc]
    refine (carries_entry (h p List.mem_cons_self) hk).bind ?_
    exact hmore.map rfl

/-- A valid request is read back. -/
theorem carries_req {req : Req} (h : req.validate = .ok ()) :
    Carries 0 0 req.encode Req.decode req := by
  obtain ⟨hsome, hmost, hall⟩ := Req.validate_iff.mp h
  obtain ⟨ps⟩ := req
  cases ps with
  | nil => exact absurd rfl hsome
  | cons p ps =>
    have hmore := carries_more (k := 0) (by decide) ps 1 (by omega)
      (by rw [Nat.add_comm]; exact hmost) fun q hq => hall q (List.mem_cons_of_mem p hq)
    rw [Nat.add_comm] at hmore
    refine carries_header.bind ?_
    refine (carries_expect (by decide)).bind ?_
    show Carries 0 0 ((_ >>= fun _ => p.encode >>= fun _ => encodeEntries 1 ps) >>= _) _ _
    rw [bind_assoc, if_pos rfl]
    refine (carries_expect (by decide)).bind ?_
    rw [bind_assoc]
    refine (carries_entry (hall p List.mem_cons_self) (by decide)).bind ?_
    exact hmore.map rfl

/-- Every entry that is decoded passes its check, and there are no more than there is room for. -/
theorem yields_decodeMore (n : Nat) :
    Yields (decodeMore n) fun ps => ps.length ≤ n ∧ ∀ p ∈ ps, p.validate = .ok () := by
  induction n with
  | zero =>
    refine (Yields.true _).bind fun _ _ => Yields.pure ⟨Nat.le_refl 0, ?_⟩
    intro p hp
    cases hp
  | succ n ih =>
    refine (Yields.true _).bind fun code _ => ?_
    match code with
    | 0 =>
      refine yields_entry.bind fun p hp => ih.bind fun ps hps => Yields.pure ⟨?_, ?_⟩
      · rw [List.length_cons]
        exact Nat.succ_le_succ hps.1
      · exact List.forall_mem_cons.mpr ⟨hp, hps.2⟩
    | 1 =>
      refine Yields.pure ⟨Nat.zero_le _, ?_⟩
      intro p hp
      cases hp
    | _ + 2 => exact Yields.throw

/-- What is read of a request is valid. -/
theorem yields_req : Yields Req.decode fun req => req.validate = .ok () := by
  refine (Yields.true _).bind fun _ _ => (Yields.true _).bind fun _ _ => ?_
  refine (Yields.true _).bind fun _ _ => yields_entry.bind fun p hp => ?_
  refine (yields_decodeMore _).bind fun ps hps => Yields.pure ?_
  refine Req.validate_iff.mpr ⟨List.cons_ne_nil p ps, ?_, List.forall_mem_cons.mpr ⟨hp, hps.2⟩⟩
  rw [List.length_cons]
  exact Nat.succ_le_succ hps.1

/-! ## The response

A code out of an enumeration and a number that may be missing. Here the reader has nothing left
to check once the codes have been read. -/

/-- The discriminant of a response code: its EXI enumeration index. -/
def ResponseCode.index : ResponseCode → Nat
  | .okSuccessfulNegotiation => 0
  | .okSuccessfulNegotiationWithMinorDeviation => 1
  | .failedNoNegotiation => 2

/-- `ResponseCode::from_index`. -/
def ResponseCode.fromIndex : Nat → Except ExiError ResponseCode
  | 0 => .ok .okSuccessfulNegotiation
  | 1 => .ok .okSuccessfulNegotiationWithMinorDeviation
  | 2 => .ok .failedNoNegotiation
  | _ => .error .unknownEnumValue

/-- What `to_slice_with` of a response writes. -/
def Res.encode (res : Res) : EStateM ExiError Encoder Unit := do
  Encoder.header .iso15118
  Encoder.event ecRes wRoot
  encodeElement (Encoder.nbit res.responseCode.index wResponseCode)
  match res.schemaId with
  | some id => do
      Encoder.event 0 wTwo
      Encoder.event 0 wOne
      encodeRestricted id schemaIdRange
      Encoder.event 0 wOne
      Encoder.event 0 wOne
  | none => Encoder.event 1 wTwo

/-- `SupportedAppProtocolRes::to_slice_with`. -/
def Res.toSliceWith (res : Res) (buf : List UInt8) (coding : ValueCoding) :
    Except ExiError (List UInt8) :=
  encodeInto res.encode buf coding

/-- The response code of a response. -/
def decodeResponseCode : EStateM ExiError Decoder ResponseCode := do
  match ResponseCode.fromIndex (← Decoder.nbit wResponseCode) with
  | .ok code => return code
  | .error e => throw e

/-- What follows the response code: the schema id, if there is one, and the end. -/
def decodeSchemaId : EStateM ExiError Decoder (Option UInt8) := do
  match ← Decoder.event wTwo with
  | 0 =>
      expect wOne 0
      let id ← decodeRestricted schemaIdRange
      expect wOne 0
      expect wOne 0
      return some id
  | 1 => return none
  | _ => throw .unknownEventCode

/-- What `from_bytes` of a response reads. -/
def Res.decode : EStateM ExiError Decoder Res := do
  let _ ← Decoder.header
  expect wRoot ecRes
  let responseCode ← decodeElement decodeResponseCode
  let schemaId ← decodeSchemaId
  return { responseCode, schemaId }

/-- `SupportedAppProtocolRes::from_bytes`. -/
def Res.fromBytes (bytes : List UInt8) : Except ExiError Res := decodeFrom Res.decode bytes

/-- What `Message::decode` makes of the handshake's payload type before anything is agreed on: a
request, and else a response. -/
def decodeHandshake (bytes : List UInt8) : Except ExiError (Req ⊕ Res) :=
  match Req.fromBytes bytes with
  | .ok req => .ok (.inl req)
  | .error _ => (Res.fromBytes bytes).map .inr

theorem carries_responseCode {k : Nat} (code : ResponseCode) :
    Carries k k (Encoder.nbit code.index wResponseCode) decodeResponseCode code := by
  have hlt : code.index < 2 ^ wResponseCode := by cases code <;> decide
  refine (carries_event hlt).map ?_
  cases code with
  | okSuccessfulNegotiation => rfl
  | okSuccessfulNegotiationWithMinorDeviation => rfl
  | failedNoNegotiation => rfl

/-- Every response is read back. -/
theorem carries_res (res : Res) : Carries 0 0 res.encode Res.decode res := by
  obtain ⟨responseCode, schemaId⟩ := res
  refine carries_header.bind ?_
  refine (carries_expect (by decide)).bind ?_
  refine (carries_element (carries_responseCode responseCode)).bind ?_
  cases schemaId with
  | none => exact ((carries_event (by decide)).map rfl : Carries 0 0 _ decodeSchemaId none).map rfl
  | some id =>
    have hid : id.toNat < 256 := id.toNat_lt
    have hread : Carries 0 0 (do
        Encoder.event 0 wTwo
        Encoder.event 0 wOne
        encodeRestricted id schemaIdRange
        Encoder.event 0 wOne
        Encoder.event 0 wOne) decodeSchemaId (some id) := by
      refine (carries_event (show 0 < 2 ^ wTwo by decide)).bind ?_
      refine (carries_expect (by decide)).bind ?_
      refine (carries_restricted (v := id) ⟨?_, ?_⟩).bind ?_
      · exact Int.natCast_nonneg _
      · show (id.toNat : Int) ≤ 255
        omega
      refine (carries_expect (by decide)).bind ?_
      exact (carries_expect (by decide)).map rfl
    exact hread.map rfl

/-! ## The handshake

Both documents begin with the same header, and their first event codes differ. No bytes are both,
so the order in which `Message::decode` tries them does not show. -/

/-- What is both was read behind the same header, and by two different event codes. -/
theorem not_both (bytes : List UInt8) (req : Req) (res : Res) :
    ¬ (Req.fromBytes bytes = .ok req ∧ Res.fromBytes bytes = .ok res) := by
  have hroot : ∀ {α : Type} {code : Nat} {next : EStateM ExiError Decoder α} {a : α}
      {d d' : Decoder}, (expect wRoot code >>= fun _ => next) d = .ok a d' →
        ∃ d₁, Decoder.event wRoot d = .ok code d₁ := by
    intro α code next a d d' h
    obtain ⟨u, d₁, hexpect, -⟩ := bind_ok.mp h
    obtain ⟨code', d₂, hevent, hsame⟩ := bind_ok.mp hexpect
    split at hsame
    · next heq =>
      rw [heq] at hevent
      exact ⟨d₂, hevent⟩
    · cases hsame
  intro h
  obtain ⟨d, hreq⟩ := read_of_decodeFrom h.1
  obtain ⟨d', hres⟩ := read_of_decodeFrom h.2
  obtain ⟨header, d₁, hheader, hreq⟩ := bind_ok.mp hreq
  obtain ⟨header', d₁', hheader', hres⟩ := bind_ok.mp hres
  rw [hheader] at hheader'
  cases hheader'
  obtain ⟨d₂, hevent⟩ := hroot hreq
  obtain ⟨d₂', hevent'⟩ := hroot hres
  rw [hevent] at hevent'
  cases hevent'

theorem readBack_req {req : Req} (h : req.validate = .ok ()) (coding : ValueCoding) :
    ReadBack (req.toSliceWith · coding) Req.fromBytes req := by
  have hdocument := (carries_req h).document coding
  obtain ⟨hsome, hmost, -⟩ := Req.validate_iff.mp h
  have hslice : ∀ buf, req.toSliceWith buf coding = encodeInto req.encode buf coding := by
    intro buf
    unfold Req.toSliceWith
    rw [if_neg]
    intro hbad
    rcases hbad with hnone | hlong
    · exact hsome hnone
    · omega
  rw [show (req.toSliceWith · coding) = (encodeInto req.encode · coding) from funext hslice]
  exact hdocument

/-- Which of the two is tried first makes no difference. -/
theorem decodeHandshake_iff {bytes : List UInt8} :
    (∀ req, decodeHandshake bytes = .ok (.inl req) ↔ Req.fromBytes bytes = .ok req)
    ∧ ∀ res, decodeHandshake bytes = .ok (.inr res) ↔ Res.fromBytes bytes = .ok res := by
  have hnot := not_both bytes
  unfold decodeHandshake
  cases hreq : Req.fromBytes bytes with
  | ok req =>
    rw [hreq] at hnot
    constructor
    · simp
    · intro res
      constructor
      · intro h
        cases h
      · intro h
        exact absurd ⟨rfl, h⟩ (hnot req res)
  | error e =>
    cases hres : Res.fromBytes bytes with
    | ok res => simp [Except.map]
    | error e' => simp [Except.map]

/-- **The handshake is read back.** A valid request and any response, in either coding, wherever
there is room; no bytes are both of them, so that it makes no difference which one is tried first;
and what is accepted is valid, so that it is encoded and read back in its turn. -/
theorem handshake_roundtrip :
    (∀ (req : Req) (coding : ValueCoding), req.validate = .ok () →
      ReadBack (req.toSliceWith · coding) Req.fromBytes req)
    ∧ (∀ (res : Res) (coding : ValueCoding), ReadBack (res.toSliceWith · coding) Res.fromBytes res)
    ∧ ∀ bytes : List UInt8,
      (∀ req res, ¬ (Req.fromBytes bytes = .ok req ∧ Res.fromBytes bytes = .ok res))
      ∧ (∀ req, decodeHandshake bytes = .ok (.inl req) ↔ Req.fromBytes bytes = .ok req)
      ∧ (∀ res, decodeHandshake bytes = .ok (.inr res) ↔ Res.fromBytes bytes = .ok res)
      ∧ (∀ req, Req.fromBytes bytes = .ok req → req.validate = .ok ()
        ∧ ∀ coding, ReadBack (req.toSliceWith · coding) Req.fromBytes req)
      ∧ ∀ res, Res.fromBytes bytes = .ok res →
        ∀ coding, ReadBack (res.toSliceWith · coding) Res.fromBytes res := by
  have hres : ∀ (res : Res) (coding : ValueCoding),
      ReadBack (res.toSliceWith · coding) Res.fromBytes res :=
    fun res coding => (carries_res res).document coding
  refine ⟨fun req coding h => readBack_req h coding, hres, fun bytes => ?_⟩
  refine ⟨not_both bytes, decodeHandshake_iff.1, decodeHandshake_iff.2, fun req h => ?_,
    fun res _ => hres res⟩
  have hvalid := yields_decodeFrom yields_req h
  exact ⟨hvalid, readBack_req hvalid⟩

/-- The request of a vehicle that speaks ISO 15118-2 alone. -/
def offerOfIso2 : Req where
  appProtocols := [⟨"urn:iso:15118:2:2013:MsgDef", 2, 0, 1, 1⟩]

/-- What the reference implementation makes of it. -/
def bytesOfIso2 : List UInt8 :=
  [0x80, 0x00, 0xeb, 0xab, 0x93, 0x71, 0xd3, 0x4b, 0x9b, 0x79, 0xd1, 0x89,
    0xa9, 0x89, 0x89, 0xc1, 0xd1, 0x91, 0xd1, 0x91, 0x81, 0x89, 0x99, 0xd2,
    0x6b, 0x9b, 0x3a, 0x23, 0x2b, 0x30, 0x02, 0x00, 0x00, 0x04, 0x00, 0x40]

/-- That request, from its validation and from its bytes; and the response that takes it. -/
theorem handshake_roundtrip_iso2 :
    ReadBack (offerOfIso2.toSliceWith · .referenced) Req.fromBytes offerOfIso2
    ∧ (offerOfIso2.validate = .ok ()
      ∧ ∀ coding, ReadBack (offerOfIso2.toSliceWith · coding) Req.fromBytes offerOfIso2)
    ∧ ∀ coding, ReadBack ((⟨.okSuccessfulNegotiation, some 1⟩ : Res).toSliceWith · coding)
      Res.fromBytes ⟨.okSuccessfulNegotiation, some 1⟩ := by
  refine ⟨handshake_roundtrip.1 offerOfIso2 .referenced (by decide +kernel), ?_, ?_⟩
  · exact (handshake_roundtrip.2.2 bytesOfIso2).2.2.2.1 offerOfIso2 (by decide +kernel)
  · exact (handshake_roundtrip.2.2 [0x80, 0x40, 0x00, 0x40]).2.2.2.2
      ⟨.okSuccessfulNegotiation, some 1⟩ (by decide +kernel)

end Iso15118.AppProtocol
