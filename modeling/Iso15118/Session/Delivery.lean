import Iso15118.Session.Reassembly

/-!
# One message, from one side to the other

What a connection puts on the wire for a message (**`Frames`**), and what the other end makes of it
as it comes in: nothing while part of it is missing (**`receive_part`**), and with the last byte the
message that was sent (**`nextMessage_of_whole`**).
-/

namespace Iso15118.Session.Connection

open Iso15118.Message (Codec)
open Iso15118.V2gtp (PayloadType V2gtpError splitFrame writeFrame headerLen)

/-- `frame` is what goes over the wire for `m`, with no more than `limit` bytes of payload. -/
structure Frames (codec : Codec) (limit : Nat) (m : Message) (frame payload : List UInt8) :
    Prop where
  encodes : codec.toVec m = .ok payload
  fits : payload.length ≤ limit
  writes : writeFrame m.payloadType payload (headerLen + payload.length) = .ok frame

variable {codec : Codec} {limit : Nat} {m : Message} {frame payload : List UInt8} {c : Connection}

theorem Frames.of_le {limit' : Nat} (h : Frames codec limit m frame payload)
    (hle : payload.length ≤ limit') : Frames codec limit' m frame payload :=
  ⟨h.encodes, hle, h.writes⟩

/-- What has been sent has been framed. -/
theorem frames_of_send {c' : Connection} (h : c.send codec m = (.ok (), c')) :
    ∃ frame payload, Frames codec c.maxPayloadLen m frame payload
      ∧ c' = { c with tx := c.tx ++ frame } := by
  unfold send Message.encode at h
  cases htoVec : codec.toVec m with
  | error e =>
    rw [htoVec] at h
    cases h
  | ok payload =>
    rw [htoVec] at h
    dsimp only at h
    rcases c.sendFrame_cases m.payloadType payload with ⟨e, hsend⟩ | ⟨frame, hwrite, hfits, hsend⟩
    · rw [hsend] at h
      cases h
    · rw [hsend] at h
      cases h
      exact ⟨frame, payload, ⟨htoVec, hfits, hwrite⟩, rfl⟩

/-- What encodes within the limit, and within what a length field can say, can be framed. -/
theorem frames_of_encodes (hencodes : codec.toVec m = .ok payload)
    (hfits : payload.length ≤ limit) (hlen : payload.length < 2 ^ 32) :
    ∃ frame, Frames codec limit m frame payload := by
  have hwrites : writeFrame m.payloadType payload (headerLen + payload.length)
      = .ok (V2gtp.Header.toBytes ⟨m.payloadType, UInt32.ofNat payload.length⟩ ++ payload) := by
    unfold writeFrame
    rw [if_neg (by omega), if_neg (by omega)]
  exact ⟨_, hencodes, hfits, hwrites⟩

theorem send_of_frames (h : Frames codec c.maxPayloadLen m frame payload) :
    c.send codec m = (.ok (), { c with tx := c.tx ++ frame }) := by
  have hfits := h.fits
  unfold send Message.encode
  rw [h.encodes]
  dsimp only
  unfold sendFrame
  rw [if_neg (by omega), h.writes]

theorem Frames.length_lt (h : Frames codec limit m frame payload) : payload.length < 2 ^ 32 := by
  have hwrites := h.writes
  unfold writeFrame at hwrites
  split at hwrites
  · cases hwrites
  · omega

/-- The type a message is framed under is read back. -/
theorem fromU16_payloadType (m : Message) :
    PayloadType.fromU16 m.payloadType.asU16 = m.payloadType := by
  cases m <;> rfl

theorem Frames.splitFrame (h : Frames codec limit m frame payload) :
    splitFrame frame limit
      = .ok ⟨⟨m.payloadType, UInt32.ofNat payload.length⟩, payload, []⟩ := by
  have hsplit := V2gtp.splitFrame_writeFrame [] h.writes (fromU16_payloadType m) h.fits
  rw [List.append_nil] at hsplit
  exact hsplit

/-- Short of the last byte a frame is not complete. -/
theorem Frames.incomplete {front more : List UInt8} (h : Frames codec limit m frame payload)
    (heq : front ++ more = frame) (hmore : more ≠ []) :
    V2gtp.splitFrame front limit = .error .incomplete := by
  have hsplit := h.splitFrame
  rw [← heq] at hsplit
  cases hfront : V2gtp.splitFrame front limit with
  | ok split =>
    rw [V2gtp.splitFrame_append more hfront] at hsplit
    have hrest : split.rest ++ more = [] := congrArg (fun r => r.toOption.elim [] V2gtp.Split.rest)
      hsplit
    exact absurd (List.append_eq_nil_iff.mp hrest).2 hmore
  | error e =>
    by_cases he : e = .incomplete
    · rw [he]
    · rw [V2gtp.splitFrame_error_append more hfront he] at hsplit
      cases hsplit

/-- Part of a frame is kept until the rest of it is there. -/
theorem receive_part {data more : List UInt8} (h : Frames codec c.maxPayloadLen m frame payload)
    (heq : c.rx ++ data ++ more = frame) (hmore : more ≠ []) :
    c.receive data = (.ok (), { c with rx := c.rx ++ data }) := by
  rw [receive_eq]
  exact cutFrames_of_incomplete (h.incomplete heq hmore)

/-- Nothing at all is no frame. -/
theorem receive_nil (h : c.rx = []) : c.receive [] = (.ok (), c) := by
  have hfed : c.fed [] = c := by
    unfold fed
    rw [List.append_nil]
  rw [receive_eq, hfed]
  refine cutFrames_of_incomplete ?_
  rw [h]
  rfl

/-- The rest of a frame makes it a frame. -/
theorem receive_whole {data : List UInt8} (h : Frames codec c.maxPayloadLen m frame payload)
    (heq : c.rx ++ data = frame) (hframes : c.frames = []) (hroom : 0 < c.maxPendingFrames) :
    c.receive data = (.ok (), { c with rx := [], frames := [(m.payloadType, payload)] }) := by
  have hsplit : V2gtp.splitFrame (c.fed data).rx (c.fed data).maxPayloadLen
      = .ok ⟨⟨m.payloadType, UInt32.ofNat payload.length⟩, payload, []⟩ := by
    show V2gtp.splitFrame (c.rx ++ data) c.maxPayloadLen = _
    rw [heq]
    exact h.splitFrame
  rw [receive_eq, cutFrames_of_split hsplit]
  have hempty : ¬ (c.fed data).frames.length ≥ (c.fed data).maxPendingFrames := by
    show ¬ c.frames.length ≥ c.maxPendingFrames
    rw [hframes]
    exact Nat.not_le.mpr hroom
  rw [if_neg hempty, cutFrames_of_incomplete rfl]
  show _ = (_, { c with rx := [], frames := [(m.payloadType, payload)] })
  rw [show (c.fed data).frames = [] from hframes]
  rfl

/-- **The message that was sent is the message that is read**, in a session of its generation. -/
theorem nextMessage_of_whole (hcodec : codec.Lossless)
    (h : Frames codec limit m frame payload) (hgen : m.generation = c.protocol)
    (hframes : c.frames = [(m.payloadType, payload)]) :
    c.nextMessage codec = (.ok (some m), { c with frames := [] }) := by
  rw [nextMessage_of_frames hframes, ← hgen, hcodec m payload h.encodes]

end Iso15118.Session.Connection
