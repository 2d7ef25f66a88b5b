import Iso15118.Session.Connection
import Iso15118.Lib.Run

/-!
# From bytes to frames and back

`Connection::receive` appends what arrived and cuts frames off the front until one is not complete.
How the transport cut the stream makes no difference to that (**`receive_chunks`**), what stays
buffered is less than the longest frame, and what one side writes frame by frame the other side
reads frame by frame (**`framing_lossless`**).
-/

namespace Iso15118.Session.Connection

open Iso15118.Lib
open Iso15118.Message (Codec)
open Iso15118.V2gtp (PayloadType V2gtpError splitFrame writeFrame headerLen)

/-! ## The loop

The loop cuts frames off the buffer until it finds none. More bytes behind the buffer are found
where it stopped, so it could as well have waited for them. -/

/-- The limits are the ones the connection was made with. -/
structure SameLimits (c c' : Connection) : Prop where
  maxPayloadLen : c'.maxPayloadLen = c.maxPayloadLen
  maxPendingFrames : c'.maxPendingFrames = c.maxPendingFrames

theorem cutFrames_of_incomplete {c : Connection}
    (h : splitFrame c.rx c.maxPayloadLen = .error .incomplete) : c.cutFrames = (.ok (), c) := by
  rw [cutFrames]
  split
  · next hok =>
    rw [h] at hok
    cases hok
  · rfl
  · next e hne herror =>
    rw [h] at herror
    cases herror
    exact absurd rfl hne

theorem cutFrames_of_error {c : Connection} {e : V2gtpError}
    (h : splitFrame c.rx c.maxPayloadLen = .error e) (he : e ≠ .incomplete) :
    c.cutFrames = (.error (.framing e), { c with rx := [] }) := by
  rw [cutFrames]
  split
  · next hok =>
    rw [h] at hok
    cases hok
  · next hincomplete =>
    rw [h] at hincomplete
    cases hincomplete
    exact absurd rfl he
  · next e' _ herror =>
    rw [h] at herror
    cases herror
    rfl

/-- A frame that can be cut off is kept, and the cutting goes on behind it, unless there are too
many. -/
theorem cutFrames_of_split {c : Connection} {split : V2gtp.Split}
    (h : splitFrame c.rx c.maxPayloadLen = .ok split) :
    c.cutFrames
      = if c.frames.length ≥ c.maxPendingFrames then
          (.error (.tooManyFrames c.maxPendingFrames), { c with rx := [], frames := [] })
        else
          cutFrames
            { c with
              frames := c.frames ++ [(split.header.payloadType, split.payload)]
              rx := split.rest } := by
  rw [cutFrames]
  split
  · next hok =>
    rw [h] at hok
    cases hok
    rfl
  · next hincomplete =>
    rw [h] at hincomplete
    cases hincomplete
  · next herror =>
    rw [h] at herror
    cases herror

theorem sameLimits_cutFrames (c : Connection) : SameLimits c c.cutFrames.2 := by
  fun_induction cutFrames c with
  | case1 c split h hfull => exact ⟨rfl, rfl⟩
  | case2 c split h hroom ih => exact ⟨ih.maxPayloadLen, ih.maxPendingFrames⟩
  | case3 c h => exact ⟨rfl, rfl⟩
  | case4 c e hne h => exact ⟨rfl, rfl⟩

/-- The loop stops where the next frame is not complete. -/
theorem incomplete_of_cutFrames {c : Connection} (h : c.cutFrames.1 = .ok ()) :
    splitFrame c.cutFrames.2.rx c.maxPayloadLen = .error .incomplete := by
  fun_induction cutFrames c with
  | case1 c split _ hfull => cases h
  | case2 c split _ hroom ih => exact ih h
  | case3 c hincomplete => exact hincomplete
  | case4 c e hne _ => cases h

/-- Never more frames than the connection holds. -/
theorem length_frames_cutFrames {c : Connection} (h : c.frames.length ≤ c.maxPendingFrames) :
    c.cutFrames.2.frames.length ≤ c.maxPendingFrames := by
  fun_induction cutFrames c with
  | case1 c split _ hfull => exact Nat.zero_le _
  | case2 c split _ hroom ih =>
    refine ih ?_
    show (c.frames ++ [_]).length ≤ c.maxPendingFrames
    rw [List.length_append, List.length_singleton]
    omega
  | case3 c _ => exact h
  | case4 c e hne _ => exact h

/-- `more` has arrived behind what is buffered. -/
def fed (c : Connection) (more : List UInt8) : Connection := { c with rx := c.rx ++ more }

/-- **More bytes pick up where the loop stopped.** By induction on the frames the loop cuts. -/
theorem cutFrames_fed (c : Connection) (more : List UInt8) :
    (c.fed more).cutFrames
      = match c.cutFrames with
        | (.ok (), c') => (c'.fed more).cutFrames
        | (.error e, c') => (.error e, c') := by
  fun_induction cutFrames c with
  | case1 c split h hfull =>
    rw [cutFrames_of_split (V2gtp.splitFrame_append more h), if_pos (by exact hfull)]
    rfl
  | case2 c split h hroom ih =>
    rw [cutFrames_of_split (V2gtp.splitFrame_append more h), if_neg (by exact hroom)]
    exact ih
  | case3 c h => rfl
  | case4 c e hne h =>
    rw [cutFrames_of_error (V2gtp.splitFrame_error_append more h hne) hne]
    rfl

/-! ## Input

A read is bytes put into the buffer and one run of the loop. -/

/-- The check behind the loop never finds anything: what is left is less than one frame. -/
theorem receive_eq (c : Connection) (data : List UInt8) :
    c.receive data = (c.fed data).cutFrames := by
  have hlimits := sameLimits_cutFrames (c.fed data)
  have hincomplete := incomplete_of_cutFrames (c := c.fed data)
  unfold receive
  rw [show { c with rx := c.rx ++ data } = c.fed data from rfl]
  generalize (c.fed data).cutFrames = out at hlimits hincomplete
  obtain ⟨result, c'⟩ := out
  cases result with
  | error e => rfl
  | ok _ =>
    have hshort : c'.rx.length < headerLen + c.maxPayloadLen :=
      V2gtp.length_lt_of_incomplete (hincomplete rfl)
    have hceiling : ¬ c'.rx.length > c'.maxPayloadLen + headerLen := by
      rw [show c'.maxPayloadLen = c.maxPayloadLen from hlimits.maxPayloadLen]
      omega
    dsimp only
    rw [if_neg hceiling]

/-- Two reads are one, up to a fault of the first. -/
theorem receive_append (c : Connection) (a b : List UInt8) :
    c.receive (a ++ b)
      = match c.receive a with
        | (.ok (), c') => c'.receive b
        | (.error e, c') => (.error e, c') := by
  have hfed : c.fed (a ++ b) = (c.fed a).fed b := by
    unfold fed
    rw [List.append_assoc]
  rw [receive_eq, receive_eq, hfed, cutFrames_fed]
  split
  · next c' _ => exact (receive_eq c' b).symm
  · rfl

/-- Read after read, up to the first fault. -/
def receiveEach (c : Connection) : List (List UInt8) → Except ConnectionError Unit × Connection
  | [] => (.ok (), c)
  | data :: rest =>
      match c.receive data with
      | (.ok (), c') => c'.receiveEach rest
      | (.error e, c') => (.error e, c')

theorem receiveEach_cons (c : Connection) (a : List UInt8) (chunks : List (List UInt8)) :
    c.receiveEach (a :: chunks) = c.receive (a :: chunks).flatten := by
  induction chunks generalizing c a with
  | nil =>
    rw [List.flatten_cons, List.flatten_nil, List.append_nil, receiveEach]
    split
    · next h => rw [h]; rfl
    · next h => rw [h]
  | cons b chunks ih =>
    rw [List.flatten_cons, receive_append, receiveEach]
    split
    · exact ih ..
    · rfl

/-- **How the stream was cut makes no difference.** Two reads succeed exactly when the one read
of both does, and leave the same connection; so does any number of them. -/
theorem receive_chunks (c : Connection) :
    (∀ a b,
      ((c.receive (a ++ b)).1 = .ok ()
          ↔ (c.receive a).1 = .ok () ∧ ((c.receive a).2.receive b).1 = .ok ())
        ∧ ((c.receive (a ++ b)).1 = .ok () →
            (c.receive (a ++ b)).2 = ((c.receive a).2.receive b).2))
      ∧ ∀ a chunks, c.receiveEach (a :: chunks) = c.receive (a :: chunks).flatten := by
  refine ⟨fun a b => ?_, receiveEach_cons c⟩
  rw [receive_append]
  generalize c.receive a = out
  obtain ⟨result, c'⟩ := out
  cases result with
  | error e =>
    refine ⟨iff_of_false (by simp) (by simp), fun h => ?_⟩
    cases h
  | ok _ => exact ⟨by simp, fun _ => rfl⟩

/-! ## The bounds, over whole runs

Each operation keeps both buffers within the limits, given that they were; the run rule does the
rest. -/

/-- What the owner of a connection does with it. -/
inductive Call where
  | receive (data : List UInt8)
  | nextFrame
  | nextMessage
  | send (message : Message)
  | sendFrame (payloadType : PayloadType) (payload : List UInt8)
  | setProtocol (protocol : Protocol)
  | takeTransmit
  | resetInput
  | reset

/-- The connection after a call. -/
def call (codec : Codec) (c : Connection) : Call → Connection
  | .receive data => (c.receive data).2
  | .nextFrame => c.nextFrame.2
  | .nextMessage => (c.nextMessage codec).2
  | .send message => (c.send codec message).2
  | .sendFrame payloadType payload => (c.sendFrame payloadType payload).2
  | .setProtocol protocol => c.setProtocol protocol
  | .takeTransmit => c.takeTransmit.2
  | .resetInput => c.resetInput
  | .reset => c.reset

/-- The buffers keep to the limits `L` and `P` the connection was made with. -/
structure Bounded (L P : Nat) (c : Connection) : Prop where
  maxPayloadLen : c.maxPayloadLen = L
  maxPendingFrames : c.maxPendingFrames = max P 1
  rx : c.rx.length ≤ L + headerLen
  frames : c.frames.length ≤ max P 1

variable {L P : Nat} {c c' : Connection}

/-- Buffers that have not grown keep to the limits. -/
theorem Bounded.of_le (h : Bounded L P c) (hlimits : SameLimits c c')
    (hrx : c'.rx.length ≤ c.rx.length) (hframes : c'.frames.length ≤ c.frames.length) :
    Bounded L P c' where
  maxPayloadLen := hlimits.maxPayloadLen.trans h.maxPayloadLen
  maxPendingFrames := hlimits.maxPendingFrames.trans h.maxPendingFrames
  rx := Nat.le_trans hrx h.rx
  frames := Nat.le_trans hframes h.frames

theorem rx_cutFrames_of_error {e : ConnectionError} (h : c.cutFrames.1 = .error e) :
    c.cutFrames.2.rx = [] := by
  fun_induction cutFrames c with
  | case1 c split _ hfull => rfl
  | case2 c split _ hroom ih => exact ih h
  | case3 c _ => cases h
  | case4 c e hne _ => rfl

theorem Bounded.receive (h : Bounded L P c) (data : List UInt8) :
    Bounded L P (c.receive data).2 := by
  rw [receive_eq]
  have hlimits := sameLimits_cutFrames (c.fed data)
  refine ⟨hlimits.maxPayloadLen.trans h.maxPayloadLen,
    hlimits.maxPendingFrames.trans h.maxPendingFrames, ?_, ?_⟩
  · cases hresult : (c.fed data).cutFrames.1 with
    | error e =>
      rw [rx_cutFrames_of_error hresult]
      exact Nat.zero_le _
    | ok _ =>
      have hshort := V2gtp.length_lt_of_incomplete (incomplete_of_cutFrames hresult)
      rw [show (c.fed data).maxPayloadLen = L from h.maxPayloadLen] at hshort
      omega
  · rw [← h.maxPendingFrames]
    refine length_frames_cutFrames (c := c.fed data) ?_
    exact Nat.le_trans h.frames (Nat.le_of_eq h.maxPendingFrames.symm)

theorem sameLimits_nextMessage (codec : Codec) (c : Connection) :
    SameLimits c (c.nextMessage codec).2 ∧ (c.nextMessage codec).2.rx.length ≤ c.rx.length
      ∧ (c.nextMessage codec).2.frames.length ≤ c.frames.length := by
  fun_induction nextMessage codec c with
  | case1 c h => exact ⟨⟨rfl, rfl⟩, Nat.le_refl _, Nat.le_refl _⟩
  | case2 c t payload rest h m hdecode =>
    rw [h]
    exact ⟨⟨rfl, rfl⟩, Nat.le_refl _, Nat.le_succ _⟩
  | case3 c t payload rest h t' hdecode ih =>
    rw [h]
    exact ⟨⟨ih.1.maxPayloadLen, ih.1.maxPendingFrames⟩, ih.2.1, Nat.le_succ_of_le ih.2.2⟩
  | case4 c t payload rest h t' p hdecode ih =>
    rw [h]
    exact ⟨⟨ih.1.maxPayloadLen, ih.1.maxPendingFrames⟩, ih.2.1, Nat.le_succ_of_le ih.2.2⟩
  | case5 c t payload rest h e hdecode => exact ⟨⟨rfl, rfl⟩, Nat.zero_le _, Nat.zero_le _⟩

theorem sendFrame_cases (c : Connection) (t : PayloadType) (payload : List UInt8) :
    (∃ e, c.sendFrame t payload = (.error e, c))
      ∨ ∃ frame, writeFrame t payload (headerLen + payload.length) = .ok frame
          ∧ payload.length ≤ c.maxPayloadLen
          ∧ c.sendFrame t payload = (.ok (), { c with tx := c.tx ++ frame }) := by
  unfold sendFrame
  split
  · exact .inl ⟨_, rfl⟩
  · next hlen =>
    split
    · exact .inl ⟨_, rfl⟩
    · next frame h => exact .inr ⟨frame, h, Nat.le_of_not_lt hlen, rfl⟩

/-- Every call keeps the buffers to the limits. -/
theorem Bounded.call (codec : Codec) (h : Bounded L P c) (a : Call) :
    Bounded L P (c.call codec a) := by
  cases a with
  | receive data => exact h.receive data
  | nextFrame =>
    refine h.of_le ⟨rfl, rfl⟩ (Nat.le_refl _) ?_
    show c.frames.tail.length ≤ c.frames.length
    rw [List.length_tail]
    omega
  | nextMessage =>
    obtain ⟨hlimits, hrx, hframes⟩ := sameLimits_nextMessage codec c
    exact h.of_le hlimits hrx hframes
  | send message =>
    show Bounded L P (c.send codec message).2
    rcases c.send_cases codec message with ⟨e, hsend⟩ | ⟨frame, -, hsend⟩
    · rw [hsend]
      exact h
    · rw [hsend]
      exact h.of_le ⟨rfl, rfl⟩ (Nat.le_refl _) (Nat.le_refl _)
  | sendFrame t payload =>
    show Bounded L P (c.sendFrame t payload).2
    rcases c.sendFrame_cases t payload with ⟨e, hsend⟩ | ⟨frame, -, -, hsend⟩
    · rw [hsend]
      exact h
    · rw [hsend]
      exact h.of_le ⟨rfl, rfl⟩ (Nat.le_refl _) (Nat.le_refl _)
  | setProtocol protocol => exact h.of_le ⟨rfl, rfl⟩ (Nat.le_refl _) (Nat.le_refl _)
  | takeTransmit => exact h.of_le ⟨rfl, rfl⟩ (Nat.le_refl _) (Nat.le_refl _)
  | resetInput => exact h.of_le ⟨rfl, rfl⟩ (Nat.zero_le _) (Nat.zero_le _)
  | reset => exact h.of_le ⟨rfl, rfl⟩ (Nat.zero_le _) (Nat.zero_le _)

/-- The connection a run of `calls` leaves behind. -/
def after (codec : Codec) (L P : Nat) (calls : List Call) : Connection :=
  run (call codec) (withLimits L P) calls

theorem bounded_after (codec : Codec) (L P : Nat) (calls : List Call) :
    Bounded L P (after codec L P calls) := by
  have hnew : Bounded L P (withLimits L P) := ⟨rfl, rfl, Nat.zero_le _, Nat.zero_le _⟩
  have hall : ∀ a ∈ calls, True := fun _ _ => trivial
  exact run_of_invariant (I := Bounded L P) (fun c a h _ => h.call codec a) hnew hall

theorem cutFrames_ne_overflow (c : Connection) (limit : Nat) :
    c.cutFrames.1 ≠ .error (.overflow limit) := by
  fun_induction cutFrames c with
  | case1 c split _ hfull => simp
  | case2 c split _ hroom ih => exact ih
  | case3 c _ => simp
  | case4 c e hne _ => simp

/-! ## What one side writes, the other reads

A frame that was written is cut off the front whatever follows it, so frames written in a row are
cut off in a row. -/

/-- Frame after frame, up to the first that cannot be sent. -/
def sendEach (c : Connection) : List (PayloadType × List UInt8) →
    Except ConnectionError Unit × Connection
  | [] => (.ok (), c)
  | (payloadType, payload) :: rest =>
      match c.sendFrame payloadType payload with
      | (.ok (), c') => c'.sendEach rest
      | (.error e, c') => (.error e, c')

/-- What `n` calls of `Connection::next_frame` return. -/
def nextFrames (c : Connection) : Nat →
    List (Option (PayloadType × List UInt8)) × Connection
  | 0 => ([], c)
  | n + 1 => (c.nextFrame.1 :: (c.nextFrame.2.nextFrames n).1, (c.nextFrame.2.nextFrames n).2)

/-- The bytes of a frame. -/
def frameBytes (frame : PayloadType × List UInt8) : List UInt8 :=
  V2gtp.Header.toBytes ⟨frame.1, UInt32.ofNat frame.2.length⟩ ++ frame.2

/-- A frame the connection can carry: a payload within its limit, under a type a header can be
read to. -/
structure Sendable (L : Nat) (frame : PayloadType × List UInt8) : Prop where
  length : frame.2.length ≤ L
  type : ∃ value, frame.1 = PayloadType.fromU16 value

theorem Sendable.writeFrame_eq {frame : PayloadType × List UInt8} (h : Sendable L frame)
    (hL : L < 2 ^ 32) :
    writeFrame frame.1 frame.2 (headerLen + frame.2.length) = .ok (frameBytes frame) := by
  have hlength := h.length
  unfold writeFrame
  rw [if_neg (by omega), if_neg (by omega)]
  rfl

theorem Sendable.splitFrame_eq {frame : PayloadType × List UInt8} (h : Sendable L frame)
    (hL : L < 2 ^ 32) (rest : List UInt8) :
    splitFrame (frameBytes frame ++ rest) L
      = .ok ⟨⟨frame.1, UInt32.ofNat frame.2.length⟩, frame.2, rest⟩ := by
  refine V2gtp.splitFrame_writeFrame rest (h.writeFrame_eq hL) ?_ h.length
  obtain ⟨value, hvalue⟩ := h.type
  rw [hvalue, PayloadType.asU16_fromU16]

theorem sendEach_eq {frames : List (PayloadType × List UInt8)} (hc : c.maxPayloadLen = L)
    (hL : L < 2 ^ 32) (hframes : ∀ frame ∈ frames, Sendable L frame) :
    c.sendEach frames = (.ok (), { c with tx := c.tx ++ frames.flatMap frameBytes }) := by
  induction frames generalizing c with
  | nil => simp [sendEach]
  | cons frame frames ih =>
    obtain ⟨hframe, hrest⟩ := List.forall_mem_cons.mp hframes
    have hsend : c.sendFrame frame.1 frame.2
        = (.ok (), { c with tx := c.tx ++ frameBytes frame }) := by
      have hlength := hframe.length
      unfold sendFrame
      rw [if_neg (by omega), hframe.writeFrame_eq hL]
    rw [sendEach, hsend]
    dsimp only
    rw [ih (by exact hc) hrest, List.flatMap_cons, List.append_assoc]

/-- What frame after frame was written comes off the stream frame by frame. By induction on the
frames, with room for all of them. -/
theorem cutFrames_flatMap {frames : List (PayloadType × List UInt8)} (hc : c.maxPayloadLen = L)
    (hL : L < 2 ^ 32) (hframes : ∀ frame ∈ frames, Sendable L frame)
    (hroom : c.frames.length + frames.length ≤ c.maxPendingFrames)
    (hrx : c.rx = frames.flatMap frameBytes) :
    c.cutFrames = (.ok (), { c with rx := [], frames := c.frames ++ frames }) := by
  induction frames generalizing c with
  | nil =>
    rw [List.flatMap_nil] at hrx
    rw [cutFrames_of_incomplete (by rw [hrx]; rfl), List.append_nil, ← hrx]
  | cons frame frames ih =>
    obtain ⟨hframe, hrest⟩ := List.forall_mem_cons.mp hframes
    rw [List.length_cons] at hroom
    have hsplit : splitFrame c.rx c.maxPayloadLen
        = .ok ⟨⟨frame.1, UInt32.ofNat frame.2.length⟩, frame.2, frames.flatMap frameBytes⟩ := by
      rw [hrx, List.flatMap_cons, hc]
      exact hframe.splitFrame_eq hL _
    rw [cutFrames_of_split hsplit, if_neg (by omega)]
    dsimp only
    rw [ih (by exact hc) hrest ?_ rfl, List.append_assoc]
    · rfl
    · show (c.frames ++ [_]).length + frames.length ≤ c.maxPendingFrames
      rw [List.length_append, List.length_singleton]
      omega

theorem nextFrames_eq (c : Connection) :
    c.nextFrames (c.frames.length + 1)
      = (c.frames.map some ++ [none], { c with frames := [] }) := by
  generalize hframes : c.frames = frames
  induction frames generalizing c with
  | nil => simp [nextFrames, nextFrame, hframes]
  | cons frame frames ih =>
    rw [List.length_cons, nextFrames]
    have hnext := ih c.nextFrame.2 (by simp [nextFrame, hframes])
    rw [hnext]
    simp [nextFrame, hframes]

/-- The frames are sent, the peer takes the bytes, and reads those frames and no more. -/
structure Delivers (L P : Nat) (sender : Connection) (frames : List (PayloadType × List UInt8)) :
    Prop where
  sent : (sender.sendEach frames).1 = .ok ()
  taken : ((withLimits L P).receive (sender.sendEach frames).2.takeTransmit.1).1 = .ok ()
  read : (((withLimits L P).receive (sender.sendEach frames).2.takeTransmit.1).2.nextFrames
    (frames.length + 1)).1 = frames.map some ++ [none]
  empty : ((withLimits L P).receive (sender.sendEach frames).2.takeTransmit.1).2.rx = []

theorem delivers (hc : c.maxPayloadLen = L) (htx : c.tx = []) (hL : L < 2 ^ 32)
    {frames : List (PayloadType × List UInt8)} (hframes : ∀ frame ∈ frames, Sendable L frame)
    (hroom : frames.length ≤ max P 1) : Delivers L P c frames := by
  have hsend := sendEach_eq hc hL hframes
  have hreceive : (withLimits L P).receive (c.sendEach frames).2.takeTransmit.1
      = (.ok (), { withLimits L P with frames := frames }) := by
    rw [receive_eq, hsend]
    refine (cutFrames_flatMap (L := L) rfl hL hframes ?_ ?_).trans rfl
    · show 0 + frames.length ≤ max P 1
      omega
    · simp [fed, withLimits, takeTransmit, htx]
  have hread := nextFrames_eq { withLimits L P with frames := frames }
  refine ⟨?_, ?_, ?_, ?_⟩
  · rw [hsend]
  · rw [hreceive]
  · rw [hreceive]
    exact congrArg Prod.fst hread
  · rw [hreceive]
    rfl

/-- Reading keeps to the limits `L` and `P`, and never by the check behind the loop. -/
structure KeepsLimits (codec : Codec) (L P : Nat) (calls : List Call) (data : List UInt8) :
    Prop where
  noOverflow : ∀ limit, ((after codec L P calls).receive data).1 ≠ .error (.overflow limit)
  rx : ((after codec L P calls).receive data).1 = .ok () →
    ((after codec L P calls).receive data).2.rx.length ≤ L + headerLen
  frames : ((after codec L P calls).receive data).1 = .ok () →
    ((after codec L P calls).receive data).2.frames.length ≤ max P 1

/-- **Framing is bounded and lossless.** In every run the input buffer holds less than one frame
and the queue no more than the limit; and what is sent frame by frame, whatever the sender did
before, a peer with the same limits reads frame by frame. -/
theorem framing_lossless (codec : Codec) (L P : Nat) (calls : List Call) :
    (∀ data, KeepsLimits codec L P calls data)
      ∧ (L < 2 ^ 32 → ∀ frames : List (PayloadType × List UInt8), frames.length ≤ max P 1 →
          (∀ frame ∈ frames, Sendable L frame) →
          Delivers L P (after codec L P calls).takeTransmit.2 frames) := by
  have hbounded := bounded_after codec L P calls
  refine ⟨fun data => ⟨fun limit => ?_, fun _ => ?_, fun _ => ?_⟩, ?_⟩
  · rw [receive_eq]
    exact cutFrames_ne_overflow _ limit
  · exact (hbounded.receive data).rx
  · exact (hbounded.receive data).frames
  · intro hL frames hroom hframes
    exact delivers (c := (after codec L P calls).takeTransmit.2) hbounded.maxPayloadLen rfl hL
      hframes hroom

/-- An empty payload and one that is as long as the limit, one behind the other. -/
theorem framing_lossless_limits :
    Delivers 3 2 (after Message.Golden.codec 3 2 []).takeTransmit.2
      [(.exiEncodedV2gMessage, []), (.manufacturerSpecific 0xA001, [0x01, 0xfe, 0x80])] := by
  refine (framing_lossless Message.Golden.codec 3 2 []).2 (by decide) _ (by decide)
    fun frame hframe => ?_
  rcases List.mem_cons.mp hframe with rfl | hframe
  · exact ⟨by decide, 0x8001, rfl⟩
  · rw [List.mem_singleton.mp hframe]
    exact ⟨by decide, 0xA001, rfl⟩

end Iso15118.Session.Connection
