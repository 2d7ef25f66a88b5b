import Iso15118.Sdp.Outcome

/-!
# The station's answer

The other side of discovery: a station reads the request off a datagram and answers it. There is no
engine for that, since every request is answered for itself.

* **`Request.fromFrame`** — the request in a datagram, with **`Request.fromFrame_writeFrame`**;
* **`Response.answering`** — the answer a station gives, from the request and what it can do;
* **`Response.fromFrame_writeFrame`** — what the vehicle reads of an answer is what was written, or
  nothing.
-/

namespace Iso15118.Sdp

open Iso15118.Lib Iso15118.Session Iso15118.V2gtp

/-- `TlsPolicy`: what a station will do about transport security. -/
inductive TlsPolicy where
  | unsupported
  | supported
  | required
  deriving DecidableEq, Repr

namespace Request

/-- A request for a plain TCP session. -/
def plain : Request := ⟨.none, .tcp⟩

/-- `PayloadType::is_sdp_request`. -/
def isSdpRequest : PayloadType → Bool
  | .sdpRequest | .sdpWirelessRequest => true
  | _ => false

/-- `Request::from_payload`. -/
def fromPayload (payload : List UInt8) : Except SdpError Request :=
  if payload.length ≠ requestLen then .error (.badLength requestLen payload.length)
  else do
    let security ← securityFromU8 (payload.getD 0 0)
    let transport ← TransportProtocol.fromU8 (payload.getD 1 0)
    return { security, transport }

/-- `Request::from_frame`. A frame may be as long as an answer, which then is the wrong type. -/
def fromFrame (frame : List UInt8) : Except SdpError Request :=
  match splitFrame frame (max responseLen requestLen) with
  | .error e => .error (.framing e)
  | .ok split =>
      if ¬ isSdpRequest split.header.payloadType then
        .error (.wrongPayloadType split.header.payloadType)
      else if split.rest ≠ [] then .error .trailingData
      else fromPayload split.payload

end Request

namespace Response

/-- `Response::satisfies`. -/
def satisfies (r : Response) (request : Request) : Bool :=
  if r.transport ≠ request.transport then false
  else ¬ (request.security = .tls ∧ r.security = .none)

/-- `Response::answering`. -/
def answering (request : Request) (address : Address) (port : UInt16) (tls : TlsPolicy) :
    Response where
  address := address
  port := port
  security :=
    match request.security, tls with
    | .tls, .supported | .tls, .required | .none, .required => .tls
    | .tls, .unsupported => .none
    | .none, .unsupported | .none, .supported => .none
  transport := request.transport

end Response

/-! ## Bytes there and back

Both payloads have a fixed layout, so what is written is read field by field. Of the answers that
can be written, those that name no endpoint are turned down. -/

theorem securityFromU8_asU8 (security : Security) :
    securityFromU8 (securityAsU8 security) = .ok security := by
  cases security <;> rfl

theorem TransportProtocol.fromU8_asU8 (transport : TransportProtocol) :
    fromU8 transport.asU8 = .ok transport := by
  cases transport <;> rfl

theorem Request.fromPayload_toPayload (r : Request) : fromPayload r.toPayload = .ok r := by
  obtain ⟨security, transport⟩ := r
  cases security <;> cases transport <;> rfl

/-- A request that is written is the request that is read. -/
theorem Request.fromFrame_writeFrame {r : Request} {wireless : Bool} {capacity : Nat}
    {frame : List UInt8} (h : r.writeFrame wireless capacity = .ok frame) :
    fromFrame frame = .ok r := by
  have hlen : r.toPayload.length ≤ max responseLen requestLen := by
    show 2 ≤ 20
    omega
  have hsplit := splitFrame_writeFrame [] h (by cases wireless <;> rfl) hlen
  rw [List.append_nil] at hsplit
  unfold fromFrame
  rw [hsplit]
  dsimp only
  rw [if_neg (by cases wireless <;> decide), if_neg (by simp), fromPayload_toPayload]

namespace Response

/-- An endpoint that can be connected to, as far as the codec looks. -/
def Connectable (r : Response) : Prop :=
  r.port ≠ 0 ∧ r.address ≠ Bytes.replicate 16 0 ∧ r.address.toList.getD 0 0 ≠ 0xff

instance instDecidableConnectable (r : Response) : Decidable r.Connectable :=
  inferInstanceAs (Decidable (_ ∧ _ ∧ _))

/-- What is read of an answer's bytes is the answer, unless nothing can be at its endpoint. -/
theorem fromPayload_toPayload (r : Response) :
    fromPayload r.toPayload
      = if r.port = 0 then .error .invalidPort
        else if r.address = Bytes.replicate 16 0 ∨ r.address.toList.getD 0 0 = 0xff then
          .error (.invalidAddress r.address)
        else .ok r := by
  obtain ⟨⟨bytes, hlen⟩, port, security, transport⟩ := r
  have hlength : (toPayload ⟨⟨bytes, hlen⟩, port, security, transport⟩).length = responseLen := by
    simp [toPayload, hlen, u16ToBe, responseLen]
  -- each field is read from where it was written
  have htake : (toPayload ⟨⟨bytes, hlen⟩, port, security, transport⟩).take 16 = bytes := by
    simp [toPayload, hlen]
  have hhead : (toPayload ⟨⟨bytes, hlen⟩, port, security, transport⟩).getD 0 0
      = bytes.getD 0 0 := by
    have hlt : 0 < bytes.length := by omega
    simp only [toPayload, List.append_assoc]
    rw [List.getD_eq_getElem?_getD, List.getElem?_append_left hlt, List.getD_eq_getElem?_getD]
  have hget : ∀ i, (toPayload ⟨⟨bytes, hlen⟩, port, security, transport⟩).getD (16 + i) 0
      = (u16ToBe port ++ [securityAsU8 security, transport.asU8]).getD i 0 := by
    intro i
    simp [toPayload, List.getD_eq_getElem?_getD, List.getElem?_append_right, hlen]
  have hport : u16FromBe ((toPayload ⟨⟨bytes, hlen⟩, port, security, transport⟩).getD 16 0)
      ((toPayload ⟨⟨bytes, hlen⟩, port, security, transport⟩).getD 17 0) = port := by
    rw [hget 0, hget 1]
    exact u16FromBe_toBe port
  have hsecurity : securityFromU8
      ((toPayload ⟨⟨bytes, hlen⟩, port, security, transport⟩).getD 18 0) = .ok security := by
    rw [hget 2]
    exact securityFromU8_asU8 security
  have htransport : TransportProtocol.fromU8
      ((toPayload ⟨⟨bytes, hlen⟩, port, security, transport⟩).getD 19 0) = .ok transport := by
    rw [hget 3]
    exact TransportProtocol.fromU8_asU8 transport
  unfold fromPayload
  rw [dif_pos hlength]
  simp only [htake, hport, hhead, hsecurity, htransport]
  -- the port is checked before the address
  split
  · rfl
  · split
    · rfl
    · rfl

/-- What is read of an answer, if anything, is the answer that was written; and it is read if there
can be something at its endpoint. -/
theorem fromFrame_writeFrame {r : Response} {wireless : Bool} {capacity : Nat} {frame : List UInt8}
    (h : r.writeFrame wireless capacity = .ok frame) :
    (∀ r', fromFrame frame = .ok r' → r' = r) ∧ (r.Connectable → fromFrame frame = .ok r) := by
  have hlen : r.toPayload.length ≤ responseLen := by
    simp [toPayload, u16ToBe, responseLen]
  have hsplit := splitFrame_writeFrame [] h (by cases wireless <;> rfl) hlen
  rw [List.append_nil] at hsplit
  have hread : fromFrame frame = fromPayload r.toPayload := by
    unfold fromFrame
    rw [hsplit]
    dsimp only
    rw [if_neg (by cases wireless <;> decide), if_neg (by simp)]
  rw [hread, fromPayload_toPayload]
  constructor
  · intro r' hr'
    split at hr'
    · cases hr'
    · split at hr'
      · cases hr'
      · cases hr'
        rfl
  · rintro ⟨hport, haddress, hmulticast⟩
    rw [if_neg hport, if_neg fun h => h.elim haddress hmulticast]

/-! ## What the vehicle makes of it

The checks of the vehicle's engine and those of the station, side by side. -/

/-- The engine refuses what `satisfies` does, and what is off the link. -/
theorem usable_iff {request : Request} {allowOffLink : Bool} {r : Response} :
    Usable request allowOffLink r
      ↔ r.satisfies request = true ∧ (allowOffLink = true ∨ r.isLinkLocal = true) := by
  have hsatisfies : r.satisfies request = true
      ↔ r.transport = request.transport ∧ (request.security = .tls → r.security = .tls) := by
    unfold satisfies
    cases request.security <;> cases r.security <;> simp
  rw [hsatisfies]
  constructor
  · exact fun h => ⟨⟨h.transport, h.security⟩, h.link⟩
  · exact fun h => ⟨h.1.1, h.1.2, h.2⟩

/-- A station has nothing to offer a vehicle that asks for TLS if it has none, and else what it
answers is what was asked for or more. -/
theorem satisfies_answering (request : Request) (address : Address) (port : UInt16)
    (tls : TlsPolicy) :
    (answering request address port tls).satisfies request = true
      ↔ ¬ (request.security = .tls ∧ tls = .unsupported) := by
  obtain ⟨security, transport⟩ := request
  cases security <;> cases tls <;> simp [satisfies, answering]

end Response

end Iso15118.Sdp
