import Iso15118.Message.Basic

/-!
# A V2G connection

`session/conn.rs`: bytes in, messages out, and the other way round. Bytes are cut into frames as
they arrive, frames are decoded when a message is asked for, and both buffers are bounded: a peer
that frames more than the connection holds, or frames nothing that reads, ends the stream.

The bounds are on what is buffered, not on what may arrive: bytes that do not make a frame yet are
kept as they are, and the frames that wait are counted when one more is cut off. Neither error is
mended here; it is the engine above that ends the session over it.
-/

namespace Iso15118.Session

open Iso15118.Message (MessageError Codec)
open Iso15118.V2gtp (PayloadType V2gtpError splitFrame writeFrame headerLen)

/-- `MAX_PENDING_FRAMES`. -/
def maxPendingFrames : Nat := 4

/-- `MAX_EXI_PAYLOAD_LEN`. -/
def maxExiPayloadLen : Nat := 1024 * 1024

inductive ConnectionError where
  | framing (error : V2gtpError)
  | message (error : MessageError)
  | overflow (limit : Nat)
  | tooManyFrames (limit : Nat)
  deriving DecidableEq, Repr

structure Connection where
  protocol : Option Protocol
  maxPayloadLen : Nat
  /-- The bytes of a frame that is not complete yet. -/
  rx : List UInt8
  /-- The frames that are complete and not decoded yet. -/
  frames : List (PayloadType × List UInt8)
  maxPendingFrames : Nat
  ignored : UInt32
  /-- The bytes to write to the transport. -/
  tx : List UInt8
  deriving DecidableEq, Repr

namespace Connection

/-- `Connection::with_limits`: a connection that can hold no frame would receive nothing. -/
def withLimits (maxPayloadLen maxPendingFrames : Nat) : Connection where
  protocol := none
  maxPayloadLen := maxPayloadLen
  rx := []
  frames := []
  maxPendingFrames := max maxPendingFrames 1
  ignored := 0
  tx := []

def setProtocol (c : Connection) (protocol : Protocol) : Connection :=
  { c with protocol := some protocol }

/-- `Connection::reset_input`. -/
def resetInput (c : Connection) : Connection := { c with rx := [], frames := [] }

-- `h` is what `decreasing_by` bounds the rest of the buffer with.
set_option linter.unusedVariables false in
/-- The loop of `Connection::receive`: cuts frames off the buffer until one is not complete. -/
def cutFrames (c : Connection) : Except ConnectionError Unit × Connection :=
  match h : splitFrame c.rx c.maxPayloadLen with
  | .ok split =>
      if c.frames.length ≥ c.maxPendingFrames then
        (.error (.tooManyFrames c.maxPendingFrames), { c with rx := [], frames := [] })
      else
        cutFrames
          { c with
            frames := c.frames ++ [(split.header.payloadType, split.payload)]
            rx := split.rest }
  | .error .incomplete => (.ok (), c)
  | .error e => (.error (.framing e), { c with rx := [] })
  termination_by c.rx.length
  decreasing_by exact V2gtp.length_rest_lt h

/-- `Connection::receive`. -/
def receive (c : Connection) (data : List UInt8) : Except ConnectionError Unit × Connection :=
  let (result, c') := cutFrames { c with rx := c.rx ++ data }
  match result with
  | .error e => (.error e, c')
  | .ok () =>
      let ceiling := c'.maxPayloadLen + headerLen
      if c'.rx.length > ceiling then (.error (.overflow ceiling), { c' with rx := [] })
      else (.ok (), c')

/-- `Connection::next_frame`: the next complete frame, if one has arrived. -/
def nextFrame (c : Connection) : Option (PayloadType × List UInt8) × Connection :=
  (c.frames.head?, { c with frames := c.frames.tail })

/-- `u32::saturating_add(1)`. -/
def saturatingSucc (n : UInt32) : UInt32 := if n.toNat + 1 < 2 ^ 32 then n + 1 else n

-- `h` is what `decreasing_by` shortens the queue with.
set_option linter.unusedVariables false in
/-- `Connection::next_message`: decodes frames until one is a message of this session. What is
not is counted and dropped; what is and does not decode ends the stream. -/
def nextMessage (codec : Codec) (c : Connection) :
    Except ConnectionError (Option Message) × Connection :=
  match h : c.frames with
  | [] => (.ok none, c)
  | (payloadType, payload) :: rest =>
      match Message.decode codec c.protocol payloadType payload with
      | .ok message => (.ok (some message), { c with frames := rest })
      | .error (.notAMessage _) | .error (.notForThisSession _ _) =>
          nextMessage codec { c with frames := rest, ignored := saturatingSucc c.ignored }
      | .error e => (.error (.message e), { c with frames := rest }.resetInput)
  termination_by c.frames.length
  decreasing_by all_goals simp [h]

/-- `Connection::send_frame`. -/
def sendFrame (c : Connection) (payloadType : PayloadType) (payload : List UInt8) :
    Except ConnectionError Unit × Connection :=
  if payload.length > c.maxPayloadLen then (.error (.overflow c.maxPayloadLen), c)
  else
    match writeFrame payloadType payload (headerLen + payload.length) with
    | .error e => (.error (.framing e), c)
    | .ok frame => (.ok (), { c with tx := c.tx ++ frame })

/-- `Connection::send`. -/
def send (codec : Codec) (c : Connection) (message : Message) :
    Except ConnectionError Unit × Connection :=
  match message.encode codec with
  | .error e => (.error (.message e), c)
  | .ok (payloadType, payload) => c.sendFrame payloadType payload

/-- `Connection::take_transmit`: the bytes to write, and the connection without them. -/
def takeTransmit (c : Connection) : List UInt8 × Connection := (c.tx, { c with tx := [] })

/-- `Connection::reset`: drops everything buffered in both directions. -/
def reset (c : Connection) : Connection := { c.resetInput with tx := [] }

/-! ## What each of them does

One lemma for each operation: what it leaves alone, and what it adds to or takes off the queues. -/

/-- Everything but the input buffers is as it was. -/
structure SameButInput (c c' : Connection) : Prop where
  protocol : c'.protocol = c.protocol
  tx : c'.tx = c.tx

theorem sameButInput_cutFrames (c : Connection) : SameButInput c c.cutFrames.2 := by
  fun_induction cutFrames c with
  | case1 c split h hfull => exact ⟨rfl, rfl⟩
  | case2 c split h hroom ih => exact ⟨ih.protocol, ih.tx⟩
  | case3 c h => exact ⟨rfl, rfl⟩
  | case4 c e h hne => exact ⟨rfl, rfl⟩

theorem sameButInput_receive (c : Connection) (data : List UInt8) :
    SameButInput c (c.receive data).2 := by
  have hcut := sameButInput_cutFrames { c with rx := c.rx ++ data }
  unfold receive
  generalize cutFrames { c with rx := c.rx ++ data } = out at hcut
  obtain ⟨result, c'⟩ := out
  cases result with
  | error e => exact ⟨hcut.protocol, hcut.tx⟩
  | ok _ =>
    dsimp only
    split
    · exact ⟨hcut.protocol, hcut.tx⟩
    · exact ⟨hcut.protocol, hcut.tx⟩

/-- Input puts frames behind those already there. -/
theorem frames_cutFrames {c : Connection} (h : c.cutFrames.1 = .ok ()) :
    ∃ more, c.cutFrames.2.frames = c.frames ++ more := by
  fun_induction cutFrames c with
  | case1 c split _ hfull => cases h
  | case2 c split _ hroom ih =>
    obtain ⟨more, hmore⟩ := ih h
    exact ⟨_, by rw [hmore, List.append_assoc]⟩
  | case3 c _ => exact ⟨[], (List.append_nil _).symm⟩
  | case4 c e _ hne => cases h

theorem frames_receive {c : Connection} {data : List UInt8} (h : (c.receive data).1 = .ok ()) :
    ∃ more, (c.receive data).2.frames = c.frames ++ more := by
  have hcut := frames_cutFrames (c := { c with rx := c.rx ++ data })
  unfold receive at h ⊢
  generalize cutFrames { c with rx := c.rx ++ data } = out at hcut h
  obtain ⟨result, c'⟩ := out
  cases result with
  | error e => cases h
  | ok _ =>
    dsimp only at h ⊢
    split at h
    · cases h
    · next hfits =>
      rw [if_neg hfits]
      exact hcut rfl

theorem sameButInput_nextMessage (codec : Codec) (c : Connection) :
    SameButInput c (c.nextMessage codec).2 := by
  fun_induction nextMessage codec c with
  | case1 c h => exact ⟨rfl, rfl⟩
  | case2 c t payload rest h m hdecode => exact ⟨rfl, rfl⟩
  | case3 c t payload rest h t' hdecode ih => exact ⟨ih.protocol, ih.tx⟩
  | case4 c t payload rest h t' p hdecode ih => exact ⟨ih.protocol, ih.tx⟩
  | case5 c t payload rest h e hdecode => exact ⟨rfl, rfl⟩

/-- A message takes its frame off the queue. -/
theorem length_frames_nextMessage {codec : Codec} {c : Connection} {m : Message}
    (h : (c.nextMessage codec).1 = .ok (some m)) :
    (c.nextMessage codec).2.frames.length < c.frames.length := by
  fun_induction nextMessage codec c with
  | case1 c _ => cases h
  | case2 c t payload rest hframes m' hdecode =>
    rw [hframes]
    exact Nat.lt_succ_self _
  | case3 c t payload rest hframes t' hdecode ih =>
    rw [hframes]
    exact Nat.lt_succ_of_lt (ih h)
  | case4 c t payload rest hframes t' p hdecode ih =>
    rw [hframes]
    exact Nat.lt_succ_of_lt (ih h)
  | case5 c t payload rest _ e hdecode => cases h

/-- A message handed over is one some frame decodes to. -/
theorem exists_decode_of_nextMessage {codec : Codec} {c : Connection} {m : Message}
    (h : (c.nextMessage codec).1 = .ok (some m)) :
    ∃ payloadType payload, Message.decode codec c.protocol payloadType payload = .ok m := by
  fun_induction nextMessage codec c with
  | case1 c _ => cases h
  | case2 c t payload rest _ m' hdecode =>
    cases h
    exact ⟨t, payload, hdecode⟩
  | case3 c t payload rest _ t' hdecode ih => exact ih h
  | case4 c t payload rest _ t' p hdecode ih => exact ih h
  | case5 c t payload rest _ e hdecode => cases h

/-- What is read is of the generation the connection has agreed on. -/
theorem generation_of_nextMessage {codec : Codec} {c c' : Connection} {m : Message}
    (h : c.nextMessage codec = (.ok (some m), c')) : m.generation = c'.protocol := by
  have hnext : (c.nextMessage codec).1 = .ok (some m) := by rw [h]
  obtain ⟨t, payload, hdecode⟩ := exists_decode_of_nextMessage hnext
  have hconn := c.sameButInput_nextMessage codec
  rw [h] at hconn
  rw [Message.generation_of_decode hdecode, hconn.protocol]

/-- `tail` has been framed behind everything else. -/
def followedBy (c : Connection) (tail : List (PayloadType × List UInt8)) : Connection :=
  { c with frames := c.frames ++ tail }

theorem send_followedBy (codec : Codec) (c : Connection) (m : Message)
    (tail : List (PayloadType × List UInt8)) :
    (c.followedBy tail).send codec m
      = ((c.send codec m).1, (c.send codec m).2.followedBy tail) := by
  unfold send
  split
  · rfl
  · unfold sendFrame
    show (if _ > c.maxPayloadLen then _ else _) = _
    split
    · rfl
    · split <;> rfl

theorem nextMessage_of_nil {codec : Codec} {c : Connection} (h : c.frames = []) :
    c.nextMessage codec = (.ok none, c) := by
  rw [nextMessage]
  split
  · rfl
  · next hcons =>
    rw [h] at hcons
    cases hcons

theorem nextMessage_of_frames {codec : Codec} {c : Connection} {t : PayloadType}
    {payload : List UInt8} {rest : List (PayloadType × List UInt8)}
    (h : c.frames = (t, payload) :: rest) :
    c.nextMessage codec
      = match Message.decode codec c.protocol t payload with
        | .ok message => (.ok (some message), { c with frames := rest })
        | .error (.notAMessage _) | .error (.notForThisSession _ _) =>
            nextMessage codec { c with frames := rest, ignored := saturatingSucc c.ignored }
        | .error e => (.error (.message e), { c with frames := rest }.resetInput) := by
  rw [nextMessage]
  split
  · next hnil =>
    rw [h] at hnil
    cases hnil
  · next hcons =>
    rw [h] at hcons
    cases hcons
    rfl

/-- A message is read off the front of the queue, whatever follows it. -/
theorem nextMessage_followedBy {codec : Codec} {c : Connection} {m : Message}
    (tail : List (PayloadType × List UInt8)) (h : (c.nextMessage codec).1 = .ok (some m)) :
    (c.followedBy tail).nextMessage codec
      = (.ok (some m), (c.nextMessage codec).2.followedBy tail) := by
  fun_induction nextMessage codec c with
  | case1 c _ => cases h
  | case2 c t payload rest hframes m' hdecode =>
    cases h
    have hfollowed : (c.followedBy tail).frames = (t, payload) :: (rest ++ tail) :=
      congrArg (· ++ tail) hframes
    rw [nextMessage_of_frames hfollowed,
      show (c.followedBy tail).protocol = c.protocol from rfl, hdecode]
    rfl
  | case3 c t payload rest hframes t' hdecode ih =>
    have hfollowed : (c.followedBy tail).frames = (t, payload) :: (rest ++ tail) :=
      congrArg (· ++ tail) hframes
    rw [nextMessage_of_frames hfollowed,
      show (c.followedBy tail).protocol = c.protocol from rfl, hdecode]
    exact ih h
  | case4 c t payload rest hframes t' p hdecode ih =>
    have hfollowed : (c.followedBy tail).frames = (t, payload) :: (rest ++ tail) :=
      congrArg (· ++ tail) hframes
    rw [nextMessage_of_frames hfollowed,
      show (c.followedBy tail).protocol = c.protocol from rfl, hdecode]
    exact ih h
  | case5 c t payload rest _ e hdecode => cases h

/-- **What sending does.** It fails and leaves the connection alone, or it adds a frame to the
bytes to write and changes nothing else. -/
theorem send_cases (codec : Codec) (c : Connection) (m : Message) :
    (∃ e, c.send codec m = (.error e, c))
      ∨ ∃ frame, frame ≠ [] ∧ c.send codec m = (.ok (), { c with tx := c.tx ++ frame }) := by
  unfold send
  split
  · exact .inl ⟨_, rfl⟩
  · next payloadType payload _ =>
    unfold sendFrame
    split
    · exact .inl ⟨_, rfl⟩
    · cases hwrite : writeFrame payloadType payload (headerLen + payload.length) with
      | error e => exact .inl ⟨_, rfl⟩
      | ok frame =>
        refine .inr ⟨frame, ?_, rfl⟩
        unfold writeFrame at hwrite
        split at hwrite
        · cases hwrite
        · split at hwrite
          · cases hwrite
          · cases hwrite
            simp [V2gtp.Header.toBytes]

end Connection

end Iso15118.Session
