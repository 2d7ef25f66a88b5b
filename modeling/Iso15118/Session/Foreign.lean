import Iso15118.Session.Connection

/-!
# Frames of somebody else

[V2G2-800]: a frame whose payload type the session does not process is ignored. Two connections
that differ in such frames only hand over the same messages, call after call, and end the same
way: **`foreign_invisible`**. What they hand over is of the generation they negotiated.
-/

namespace Iso15118.Session.Connection

open Iso15118.Message (MessageError Codec)
open Iso15118.V2gtp (PayloadType)

/-- The frame is none of this session's: it carries no V2G message, or one of another generation. -/
def Foreign (protocol : Option Protocol) (frame : PayloadType × List UInt8) : Prop :=
  frame.1.isExi = false ∨ frame.1.belongsTo protocol = false

/-- `frames'` is `frames` with foreign frames put in, anywhere and any number of them. -/
inductive Padded (protocol : Option Protocol) :
    List (PayloadType × List UInt8) → List (PayloadType × List UInt8) → Prop where
  | nil : Padded protocol [] []
  | keep (frame : PayloadType × List UInt8) {frames frames' : List (PayloadType × List UInt8)}
      (h : Padded protocol frames frames') : Padded protocol (frame :: frames) (frame :: frames')
  | insert (frame : PayloadType × List UInt8) {frames frames' : List (PayloadType × List UInt8)}
      (hforeign : Foreign protocol frame) (h : Padded protocol frames frames') :
      Padded protocol frames (frame :: frames')

/-- What `n` calls of `Connection::next_message` return. -/
def results (codec : Codec) (c : Connection) :
    Nat → List (Except ConnectionError (Option Message))
  | 0 => []
  | n + 1 => (c.nextMessage codec).1 :: results codec (c.nextMessage codec).2 n

/-! ## One call

Frames are taken off the queue until one is a message of this session. Those that are not are
counted and dropped, so how many of them there are makes no difference. -/

/-- The grammars a session reads with are those of its own payload types, so a foreign frame
reaches none of them. -/
theorem decode_of_foreign (codec : Codec) {protocol : Option Protocol} {t : PayloadType}
    {payload : List UInt8} (h : Foreign protocol (t, payload)) :
    Message.decode codec protocol t payload = .error (.notAMessage t)
      ∨ Message.decode codec protocol t payload = .error (.notForThisSession t protocol) := by
  unfold Message.decode
  by_cases hexi : t.isExi = true
  · right
    have hbelongs : t.belongsTo protocol = false := h.resolve_left (by simp [hexi])
    rw [if_neg (by simp [hexi])]
    split
    -- every arm that reads a grammar is of a type that belongs to the session
    all_goals first
      | cases hbelongs
      | rw [if_pos (by simp [hbelongs])]
  · left
    rw [if_pos hexi]

theorem nextMessage_of_foreign {codec : Codec} {c : Connection}
    {frame : PayloadType × List UInt8} {rest : List (PayloadType × List UInt8)}
    (hforeign : Foreign c.protocol frame) (h : c.frames = frame :: rest) :
    c.nextMessage codec
      = nextMessage codec { c with frames := rest, ignored := saturatingSucc c.ignored } := by
  rw [nextMessage_of_frames h]
  rcases decode_of_foreign codec hforeign with hdecode | hdecode
  · rw [hdecode]
  · rw [hdecode]

/-- One call returns the same, and what it leaves still differs in foreign frames only. By
induction on where they were put in. -/
theorem nextMessage_padded (codec : Codec) {c c' : Connection}
    (hprotocol : c'.protocol = c.protocol) (h : Padded c.protocol c.frames c'.frames) :
    (c'.nextMessage codec).1 = (c.nextMessage codec).1
      ∧ Padded c.protocol (c.nextMessage codec).2.frames (c'.nextMessage codec).2.frames := by
  generalize hp : c.protocol = protocol at h
  generalize hf : c.frames = frames at h
  generalize hf' : c'.frames = frames' at h
  induction h generalizing c c' with
  | nil =>
    rw [nextMessage_of_nil hf, nextMessage_of_nil hf']
    rw [hf, hf']
    exact ⟨rfl, .nil⟩
  | keep frame h ih =>
    rw [nextMessage_of_frames hf, nextMessage_of_frames hf', hprotocol]
    cases hdecode : Message.decode codec c.protocol frame.1 frame.2 with
    | ok m => exact ⟨rfl, h⟩
    | error e =>
      cases e with
      | notAMessage t => exact ih rfl hp rfl rfl
      | notForThisSession t p => exact ih rfl hp rfl rfl
      | exi e => exact ⟨rfl, .nil⟩
      | noCodec t p => exact ⟨rfl, .nil⟩
  | insert frame hforeign h ih =>
    rw [nextMessage_of_foreign (by rw [hprotocol, hp]; exact hforeign) hf']
    exact @ih c _ hprotocol hp hf rfl

/-! ## Call after call

What one call returns is the same and so is what it leaves, up to foreign frames; by induction on
the calls. -/

theorem results_padded (codec : Codec) {c c' : Connection} (hprotocol : c'.protocol = c.protocol)
    (h : Padded c.protocol c.frames c'.frames) (n : Nat) :
    results codec c' n = results codec c n := by
  induction n generalizing c c' with
  | zero => rfl
  | succ n ih =>
    obtain ⟨hresult, hrest⟩ := nextMessage_padded codec hprotocol h
    have hsame := (c.sameButInput_nextMessage codec).protocol
    have hsame' := (c'.sameButInput_nextMessage codec).protocol
    rw [results, results, hresult]
    refine congrArg _ (ih ?_ ?_)
    · rw [hsame, hsame', hprotocol]
    · rw [hsame]
      exact hrest

/-- A message decodes under a payload type of its session, and is of its generation. -/
theorem belongsTo_of_generation {m : Message} {protocol : Option Protocol}
    (h : m.generation = protocol) : m.payloadType.belongsTo protocol = true := by
  subst h
  cases m <;> rfl

theorem generation_of_mem_results {codec : Codec} {c : Connection} {n : Nat} {m : Message}
    (h : .ok (some m) ∈ results codec c n) : m.generation = c.protocol := by
  induction n generalizing c with
  | zero => cases h
  | succ n ih =>
    rcases List.mem_cons.mp h with hfirst | hlater
    · obtain ⟨t, payload, hdecode⟩ := exists_decode_of_nextMessage hfirst.symm
      exact Message.generation_of_decode hdecode
    · rw [ih hlater]
      exact (c.sameButInput_nextMessage codec).protocol

/-- **Foreign frames are invisible.** Put into the queue anywhere and in any number, they change
nothing of what any number of calls returns; and every message returned is of the generation the
session negotiated. -/
theorem foreign_invisible (codec : Codec) (c : Connection)
    (frames : List (PayloadType × List UInt8)) (h : Padded c.protocol c.frames frames) (n : Nat) :
    results codec { c with frames := frames } n = results codec c n
      ∧ ∀ m, .ok (some m) ∈ results codec c n →
          m.generation = c.protocol ∧ m.payloadType.belongsTo c.protocol = true := by
  refine ⟨results_padded codec (by rfl) h n, fun m hm => ?_⟩
  have hgeneration := generation_of_mem_results hm
  exact ⟨hgeneration, belongsTo_of_generation hgeneration⟩

/-- A -2 session with its `SessionSetupReq` in the queue. -/
def goldenQueue : Connection :=
  { (withLimits 100 4).setProtocol .iso2 with
    frames := [(.exiEncodedV2gMessage, Message.Golden.sessionSetupReq)] }

/-- An extension of the manufacturer's before it and a -20 message behind it go unnoticed. -/
theorem foreign_invisible_sessionSetup :
    results Message.Golden.codec
        { goldenQueue with
          frames := [(.manufacturerSpecific 0xA000, [0x00]),
            (.exiEncodedV2gMessage, Message.Golden.sessionSetupReq),
            (.part20Main, Message.Golden.sessionStopReq)] } 2
      = results Message.Golden.codec goldenQueue 2 :=
  (foreign_invisible Message.Golden.codec goldenQueue _
    (.insert _ (.inl rfl) (.keep _ (.insert _ (.inr rfl) .nil))) 2).1

end Iso15118.Session.Connection
