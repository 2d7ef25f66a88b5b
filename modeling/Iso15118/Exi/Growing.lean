import Iso15118.Exi.Header
import Iso15118.Lib.Overflow
import Iso15118.Session.Connection

/-!
# Growing the buffer

An encoder writes into a slice of the caller's. `encode_growing` is for callers that would rather
have a vector: it runs the encoder into a buffer that doubles until the output fits, and never
clears what an earlier run has left there.

* **`Op`** — the operations an encoder is made of, and **`oblivious_write`**: what they do depends
  on the size of the buffer in one way only, that they run out of it;
* **`Settled`** — the stream and the result of an encoder that is made of them;
* **`encodeGrowing_exact`** — so growing the buffer is the same as to begin with the largest one.

The proof has no use for what an encoder writes, only for how it uses its buffer. So it is made of
three layers: each operation is oblivious of the size of its sink until it runs out of it
(`Lib.Overflow`); a sequence of operations is; and an encoder that is settled in this sense can be
run again and again in larger buffers, with the last run the only one that counts.
-/

namespace Iso15118.Exi

open Iso15118.Lib
open Iso15118.Session (maxExiPayloadLen)

/-! ## What the operations do in any buffer

Each operation looks at the room that is left in one place only, before it writes a bit. What it
would write there is the same in any buffer; that is shown for the single bit and passed on along
the text of the operations. -/

namespace Encoder

theorem capacity_eq (e : Encoder) : capacity e = 8 * e.bits.buf.length := by
  have hinside := e.bits.inside
  show (Sink.written e.bits).length + (8 * e.bits.buf.length - e.bits.pos) = _
  rw [BitWriter.length_written]
  omega

theorem prim_bind {α β : Type} (m : EStateM ExiError BitWriter α)
    (k : α → EStateM ExiError BitWriter β) :
    prim (m >>= k) = prim m >>= fun a => prim (k a) := by
  funext e
  show prim (EStateM.bind m k) e = EStateM.bind (prim m) _ e
  unfold prim EStateM.bind
  cases hm : m e.bits <;> simp only [hm]

/-- On the bit stream alone the action is the same in any buffer. -/
def Plain {α : Type} (m : EStateM ExiError BitWriter α) : Prop :=
  Oblivious ExiError.outputFull (prim m)

section Plain

variable {α β : Type} {m : EStateM ExiError BitWriter α} {k : α → EStateM ExiError BitWriter β}

theorem Plain.bind (h : Plain m) (h' : ∀ a, Plain (k a)) : Plain (m >>= k) := by
  unfold Plain
  rw [prim_bind]
  exact Oblivious.bind h h'

theorem Plain.pure (a : α) : Plain (Pure.pure a) := Oblivious.pure a

theorem Plain.throw {x : ExiError} (h : x ≠ .outputFull) :
    Plain (MonadExcept.throw x : EStateM ExiError BitWriter α) := Oblivious.throw h

/-- A bit is written alike into any buffer it fits in. -/
theorem plain_writeBit (bit : Bool) : Plain (BitWriter.writeBit bit) := by
  intro t
  have hputs := puts_prim (BitWriter.puts_writeBit bit)
  refine ⟨⟨t.bits ++ [bit], t.frame⟩, .ok (), ?_, (fun h => by cases h), fun e he hroom => ?_,
    fun e he hfull => ?_⟩
  · rw [List.length_append]
    exact Nat.le_add_right _ _
  · have hleft : [bit].length ≤ Sink.room e := by
      rw [List.length_append, ← he.bits] at hroom
      unfold capacity at hroom
      omega
    obtain ⟨e', hm, hwritten, hroom', hframe⟩ := (hputs _ e he.frame).1 hleft
    refine ⟨e', hm, ⟨hwritten.trans (by rw [he.bits]), hframe⟩, ?_⟩
    unfold capacity
    rw [hwritten, hroom', List.length_append]
    omega
  · -- nothing has been written
    have hcapacity := capacity_eq e
    have hbits := congrArg List.length he.bits
    rw [List.length_append, List.length_singleton] at hfull
    have hpos : (Sink.written e).length = e.bits.pos := BitWriter.length_written e.bits
    have hnot : ¬ e.bits.pos / 8 < e.bits.buf.length := by omega
    refine ⟨e, ?_, rfl⟩
    show prim (BitWriter.writeBit bit) e = _
    unfold prim BitWriter.writeBit
    rw [dif_neg hnot]

theorem plain_writeBits (value n : Nat) : Plain (BitWriter.writeBits value n) := by
  induction n with
  | zero => exact Plain.pure ()
  | succ n ih => exact (plain_writeBit _).bind fun _ => ih

theorem plain_writeByte (byte : UInt8) : Plain (BitWriter.writeByte byte) :=
  plain_writeBits byte.toNat 8

theorem plain_writeBytes (bytes : List UInt8) : Plain (BitWriter.writeBytes bytes) := by
  induction bytes with
  | nil => exact Plain.pure ()
  | cons b bytes ih => exact (plain_writeByte b).bind fun _ => ih

theorem plain_writeUintFrom (n value : Nat) : Plain (writeUintFrom n value) := by
  induction n generalizing value with
  | zero => exact Plain.pure ()
  | succ n ih =>
    unfold writeUintFrom
    refine (plain_writeByte _).bind fun _ => ?_
    split
    · exact Plain.pure ()
    · exact ih _

theorem plain_writeUint (value : UInt64) : Plain (writeUint value) := plain_writeUintFrom _ _

theorem plain_writeInt (value : Int64) : Plain (writeInt value) :=
  (plain_writeBit _).bind fun _ => plain_writeUint _

theorem plain_writeBinary (bytes : List UInt8) : Plain (writeBinary bytes) := by
  unfold writeBinary
  split
  · exact (plain_writeUint _).bind fun _ => plain_writeBytes bytes
  · exact Plain.throw (by decide)

theorem plain_writeChars (chars : List Char) : Plain (writeChars chars) := by
  induction chars with
  | nil => exact Plain.pure ()
  | cons c chars ih => exact (plain_writeUint _).bind fun _ => ih

theorem plain_writeDecimal (d : Decimal) : Plain (writeDecimal d) :=
  (plain_writeBit _).bind fun _ => (plain_writeUint _).bind fun _ => plain_writeUint _

theorem plain_writeFloat (f : Float) : Plain (writeFloat f) := by
  unfold writeFloat
  split
  · exact (plain_writeInt _).bind fun _ => plain_writeInt _
  · exact Plain.throw (by decide)

theorem plain_writeFractionalSecs (f : Option Fraction) : Plain (writeFractionalSecs f) := by
  cases f with
  | none => exact plain_writeBit false
  | some f => exact (plain_writeBit true).bind fun _ => plain_writeUint _

theorem plain_writeTimezone (tz : Option Int16) : Plain (writeTimezone tz) := by
  cases tz with
  | none => exact plain_writeBit false
  | some tz =>
    refine (plain_writeBit true).bind fun _ => ?_
    dsimp only
    split
    · exact plain_writeBits _ 11
    · exact Plain.throw (by decide)

theorem plain_writeDatetime (dt : DateTime) : Plain (writeDatetime dt) := by
  unfold writeDatetime
  split
  · exact (plain_writeInt _).bind fun _ => (plain_writeBits _ 9).bind fun _ =>
      (plain_writeBits _ 17).bind fun _ => (plain_writeFractionalSecs _).bind fun _ =>
        plain_writeTimezone _
  · exact Plain.throw (by decide)

theorem plain_writeVersion (remaining n : Nat) : Plain (writeVersion remaining n) := by
  induction n generalizing remaining with
  | zero => exact Plain.pure ()
  | succ n ih =>
    unfold writeVersion
    split
    · exact (plain_writeBits 15 4).bind fun _ => ih _
    · exact plain_writeBits remaining 4

theorem plain_writeHeader (header : Header) : Plain (writeHeader header) := by
  have hversion : Plain (if header.version = 0 then
        MonadExcept.throw .badHeader >>= fun _ : Unit => writeVersion (header.version.toNat - 1) 17
      else writeVersion (header.version.toNat - 1) 17) := by
    split
    · exact (Plain.throw (by decide)).bind fun _ => plain_writeVersion _ _
    · exact plain_writeVersion _ _
  have hrest := (plain_writeBits 0b10 2).bind fun _ => (plain_writeBit false).bind fun _ =>
    (plain_writeBit header.preview).bind fun _ => hversion
  unfold writeHeader
  dsimp only
  split
  · exact (plain_writeBytes cookie).bind fun _ => hrest
  · exact hrest

end Plain

/-- The zeros up to the end of a byte are the only ones that depend on where they are written. They
always fit: a buffer ends with a byte. -/
theorem emits_padToByte (t : Unlimited Context) :
    Emits ExiError.outputFull (prim BitWriter.padToByte) t
      ⟨t.bits ++ List.replicate ((8 - t.bits.length % 8) % 8) false, t.frame⟩ (.ok ()) := by
  have hpad : ∀ e : Encoder, Tracks e t → ∃ e', prim BitWriter.padToByte e = .ok () e'
      ∧ Tracks e' ⟨t.bits ++ List.replicate ((8 - t.bits.length % 8) % 8) false, t.frame⟩
      ∧ capacity e' = capacity e := by
    intro e he
    have hpos : e.bits.pos = t.bits.length := by
      rw [← he.bits]
      exact (BitWriter.length_written e.bits).symm
    obtain ⟨w, hpad, hlen, hwritten⟩ := BitWriter.padWithin_eq 7 e.bits (by
      unfold BitWriter.padding
      omega)
    refine ⟨{ e with bits := w }, ?_, ⟨?_, he.frame⟩, ?_⟩
    · show prim (BitWriter.padWithin 7) e = _
      unfold prim
      rw [hpad]
    · show Sink.written w = _
      rw [hwritten, ← he.bits, BitWriter.padding, hpos, ← he.bits]
      rfl
    · rw [capacity_eq, capacity_eq]
      exact congrArg (8 * ·) hlen
  refine ⟨?_, (fun h => by cases h), fun e he _ => hpad e he, fun e he hfull => ?_⟩
  · rw [List.length_append]
    exact Nat.le_add_right _ _
  · obtain ⟨e', -, htracks, hcap⟩ := hpad e he
    have hle := htracks.length_le
    omega

/-- The stream ends with a whole byte. -/
theorem emits_finish (t : Unlimited Context) :
    ∃ t' : Unlimited Context, ∃ n,
      Emits ExiError.outputFull finish t t' (.ok n) ∧ 8 * n = t'.bits.length := by
  have hpad := emits_padToByte t
  have hlength : (t.bits ++ List.replicate ((8 - t.bits.length % 8) % 8) false).length
      = 8 * ((t.bits.length + 7) / 8) := by
    rw [List.length_append, List.length_replicate]
    omega
  refine ⟨⟨t.bits ++ List.replicate ((8 - t.bits.length % 8) % 8) false, t.frame⟩,
    (t.bits.length + 7) / 8, ?_, hlength.symm⟩
  unfold finish BitWriter.finish
  rw [prim_bind]
  refine hpad.bind (Emits.of_frame (fun h => by cases h) fun e he => ?_)
  refine ⟨e, ?_, rfl, rfl, he.frame⟩
  have hpos : e.bits.pos = 8 * ((t.bits.length + 7) / 8) := by
    rw [← BitWriter.length_written e.bits, ← hlength]
    exact congrArg List.length he.bits
  show EStateM.Result.ok ((e.bits.pos + 7) / 8) e = _
  rw [hpos, show (8 * ((t.bits.length + 7) / 8) + 7) / 8 = (t.bits.length + 7) / 8 by omega]
  rfl

/-! ## Operations on more than the bits

The table and the depth are no part of the buffer, so what reads or changes them alone does so in
any buffer. -/

theorem oblivious_modify (f : Encoder → Encoder) (g : Context → Context)
    (h : ∀ e, Sink.frame (f e) = g (Sink.frame e) ∧ (f e).bits = e.bits) :
    Oblivious ExiError.outputFull (modify f : EStateM ExiError Encoder Unit) := by
  intro t
  refine ⟨⟨t.bits, g t.frame⟩, .ok (), Emits.of_frame (fun h => by cases h) fun e he => ?_⟩
  obtain ⟨hframe, hbits⟩ := h e
  refine ⟨f e, rfl, ?_, ?_, hframe.trans (congrArg g he.frame)⟩
  · show Sink.written (f e).bits = _
    rw [hbits]
    rfl
  · show Sink.room (f e).bits = _
    rw [hbits]
    rfl

theorem oblivious_enter : Oblivious ExiError.outputFull enter := by
  refine (oblivious_modify (fun e => { e with depth := deeper e.depth })
    (fun f => { f with depth := deeper f.depth }) fun e => ⟨rfl, rfl⟩).bind fun _ =>
      Oblivious.get fun f => ?_
  refine ⟨if f.depth > maxDepth then throw .depthLimitExceeded else pure (), ?_, ?_⟩
  · split
    · exact Oblivious.throw (by decide)
    · exact Oblivious.pure ()
  · rintro e rfl
    rfl

theorem oblivious_leave : Oblivious ExiError.outputFull leave :=
  oblivious_modify _ (fun f => { f with depth := f.depth - 1 }) fun _ => ⟨rfl, rfl⟩

theorem oblivious_check (lengths : Lengths) (len : Nat) :
    Oblivious ExiError.outputFull (lengths.check len : EStateM ExiError Encoder Unit) := by
  unfold Lengths.check
  split
  · exact Oblivious.throw (by decide)
  · split
    · exact Oblivious.throw (by decide)
    · exact Oblivious.pure ()

/-- What `remember` makes of the table, and of nothing else. -/
def remembered (ctx : ValueCtx) (value : String) (f : Context) : Context :=
  match f.coding with
  | .referenced => { f with values := f.values.insert ctx value }
  | .literal => f

theorem oblivious_remember (ctx : ValueCtx) (value : String) :
    Oblivious ExiError.outputFull (remember ctx value) := by
  refine oblivious_modify _ (remembered ctx value) fun e => ?_
  obtain ⟨bits, values, coding, depth⟩ := e
  cases coding <;> exact ⟨rfl, rfl⟩

theorem oblivious_stringAt (values : ValueTable) (ctx : ValueCtx) (value : String) (hit : Hit) :
    Oblivious ExiError.outputFull (stringAt values ctx value hit) := by
  cases hit with
  | «local» idx => exact Oblivious.bind (plain_writeUint 0) fun _ => plain_writeBits idx _
  | global idx => exact Oblivious.bind (plain_writeUint 1) fun _ => plain_writeBits idx _
  | miss =>
    exact Oblivious.bind (plain_writeUint _) fun _ =>
      Oblivious.bind (plain_writeChars _) fun _ => oblivious_remember ctx value

theorem oblivious_string (ctx : ValueCtx) (value : String) (lengths : Lengths) :
    Oblivious ExiError.outputFull (string ctx value lengths) := by
  refine (oblivious_check lengths _).bind fun _ => Oblivious.get fun f => ?_
  refine ⟨stringAt f.values ctx value (hit f.coding f.values ctx value),
    oblivious_stringAt _ _ _ _, ?_⟩
  rintro e rfl
  rfl

theorem oblivious_restricted (value min max : Int64) :
    Oblivious ExiError.outputFull (restricted value min max) := by
  unfold restricted
  split
  · exact Oblivious.throw (by decide)
  · exact plain_writeBits _ _

end Encoder

/-! ## Encoders

A generated encoder is a sequence of operations that its value determines. It may refuse a value,
and does so at the same place in any buffer that holds what came before. -/

/-- What an encoder is made of: the operations of `BitWriter` and of `Encoder`, and to refuse the
value. -/
inductive Op where
  | writeBit (bit : Bool)
  | writeBits (value n : Nat)
  | writeByte (byte : UInt8)
  | writeBytes (bytes : List UInt8)
  | padToByte
  | header (header : Header)
  | event (code width : Nat)
  | enter
  | leave
  | uint (v : UInt64)
  | int (v : Int64)
  | nbit (v n : Nat)
  | boolean (v : Bool)
  | restricted (value min max : Int64)
  | binary (bytes : List UInt8) (lengths : Lengths)
  | decimal (v : Decimal)
  | float (v : Float)
  | datetime (v : DateTime)
  | string (ctx : ValueCtx) (value : String) (lengths : Lengths)
  | refuse (e : ExiError) (he : e ≠ .outputFull)

namespace Op

def write : Op → EStateM ExiError Encoder Unit
  | writeBit bit => Encoder.prim (BitWriter.writeBit bit)
  | writeBits value n => Encoder.prim (BitWriter.writeBits value n)
  | writeByte byte => Encoder.prim (BitWriter.writeByte byte)
  | writeBytes bytes => Encoder.prim (BitWriter.writeBytes bytes)
  | padToByte => Encoder.prim BitWriter.padToByte
  | header h => Encoder.header h
  | event code width => Encoder.event code width
  | enter => Encoder.enter
  | leave => Encoder.leave
  | uint v => Encoder.uint v
  | int v => Encoder.int v
  | nbit v n => Encoder.nbit v n
  | boolean v => Encoder.boolean v
  | restricted value min max => Encoder.restricted value min max
  | binary bytes lengths => Encoder.binary bytes lengths
  | decimal v => Encoder.decimal v
  | float v => Encoder.float v
  | datetime v => Encoder.datetime v
  | string ctx value lengths => Encoder.string ctx value lengths
  | refuse e _ => throw e

/-- Each operation of the encoder does the same in every buffer it fits in. -/
theorem oblivious_write (op : Op) : Oblivious ExiError.outputFull op.write := by
  cases op with
  | writeBit bit => exact Encoder.plain_writeBit bit
  | writeBits value n => exact Encoder.plain_writeBits value n
  | writeByte byte => exact Encoder.plain_writeByte byte
  | writeBytes bytes => exact Encoder.plain_writeBytes bytes
  | padToByte => exact fun t => ⟨_, _, Encoder.emits_padToByte t⟩
  | header h => exact Encoder.plain_writeHeader h
  | event code width => exact Encoder.plain_writeBits code width
  | enter => exact Encoder.oblivious_enter
  | leave => exact Encoder.oblivious_leave
  | uint v => exact Encoder.plain_writeUint v
  | int v => exact Encoder.plain_writeInt v
  | nbit v n => exact Encoder.plain_writeBits v n
  | boolean v => exact Encoder.plain_writeBit v
  | restricted value min max => exact Encoder.oblivious_restricted value min max
  | binary bytes lengths =>
    exact (Encoder.oblivious_check lengths _).bind fun _ => Encoder.plain_writeBinary bytes
  | decimal v => exact Encoder.plain_writeDecimal v
  | float v => exact Encoder.plain_writeFloat v
  | datetime v => exact Encoder.plain_writeDatetime v
  | string ctx value lengths => exact Encoder.oblivious_string ctx value lengths
  | refuse e he => exact Oblivious.throw he

end Op

/-- The operations in their order. -/
def writeOps : List Op → EStateM ExiError Encoder Unit
  | [] => pure ()
  | op :: ops => do
      op.write
      writeOps ops

theorem oblivious_writeOps (ops : List Op) : Oblivious ExiError.outputFull (writeOps ops) := by
  induction ops with
  | nil => exact Oblivious.pure ()
  | cons op ops ih => exact op.oblivious_write.bind fun _ => ih

/-- A document: the operations a value determines, and the end of the stream. -/
def encode (ops : List Op) : EStateM ExiError Encoder Nat := do
  writeOps ops
  Encoder.finish

/-- A document is the same in any buffer that holds it, and it is whole bytes. -/
theorem emits_encode (ops : List Op) (t : Unlimited Encoder.Context) :
    ∃ t' out, Emits ExiError.outputFull (encode ops) t t' out
      ∧ ∀ n, out = .ok n → 8 * n = t'.bits.length := by
  obtain ⟨t₁, out, hops⟩ := oblivious_writeOps ops t
  cases out with
  | error e => exact ⟨t₁, .error e, hops.bind_error, fun n h => by cases h⟩
  | ok u =>
    obtain ⟨t₂, n, hfinish, hlength⟩ := Encoder.emits_finish t₁
    refine ⟨t₂, .ok n, hops.bind hfinish, fun n' h => ?_⟩
    cases h
    exact hlength

/-- A slice encoder, `FnMut(&mut [u8]) -> ExiResult<usize>`: what comes out, and what is in the
slice afterwards. -/
abbrev SliceEncoder :=
  (buf : List UInt8) → Except ExiError Nat × { after : List UInt8 // after.length = buf.length }

/-- A new encoder has written nothing, whatever is in its buffer. -/
theorem tracks_withValueCoding (buf : List UInt8) (coding : ValueCoding) :
    Tracks (Encoder.withValueCoding buf coding)
      (⟨[], .mk .new coding 0⟩ : Unlimited Encoder.Context) := ⟨rfl, rfl⟩

theorem length_encode (ops : List Op) (buf : List UInt8) (coding : ValueCoding) :
    (resultState (encode ops (.withValueCoding buf coding))).bits.buf.length = buf.length := by
  obtain ⟨t', out, hemits, -⟩ := emits_encode ops ⟨[], .mk .new coding 0⟩
  have hcap := hemits.capacity_eq (tracks_withValueCoding buf coding)
  rw [Encoder.capacity_eq, Encoder.capacity_eq] at hcap
  have hbuf : 8 * (resultState (encode ops (.withValueCoding buf coding))).bits.buf.length
      = 8 * buf.length := hcap
  omega

/-- What a generated `to_slice_with` is: an encoder over the slice, the operations, the end. -/
def toSliceWith (ops : List Op) (coding : ValueCoding) : SliceEncoder := fun buf =>
  (resultOut (encode ops (.withValueCoding buf coding)),
    ⟨(resultState (encode ops (.withValueCoding buf coding))).bits.buf,
      length_encode ops buf coding⟩)

/-! ## Growing

A run that does not fit is thrown away, but what it has written stays in the buffer. As the
writer clears each byte it touches, the next run writes what it would write into a clean one. -/

/-- `Vec::resize` with zeros. -/
def resize (buf : List UInt8) (len : Nat) : List UInt8 :=
  buf.take len ++ List.replicate (len - buf.length) 0

theorem length_resize (buf : List UInt8) (len : Nat) : (resize buf len).length = len := by
  rw [resize, List.length_append, List.length_take, List.length_replicate]
  omega

/-- The loop of `encode_growing`, from a buffer that is not empty. It ends because the buffer is
longer each time. -/
def growFrom (encode : SliceEncoder) (buf : List UInt8) (hpos : 0 < buf.length) :
    Except ExiError (List UInt8) :=
  match encode buf with
  | (.ok n, after) => .ok (after.val.take n)
  | (.error e, after) =>
      if _h : e = .outputFull ∧ buf.length < maxExiPayloadLen then
        growFrom encode (resize after.val (Nat.min (buf.length * 2) maxExiPayloadLen)) (by
          rw [length_resize]
          exact Nat.lt_min.mpr ⟨by omega, by decide⟩)
      else .error e
termination_by maxExiPayloadLen - buf.length
decreasing_by
  rw [length_resize]
  have hlonger : buf.length < Nat.min (buf.length * 2) maxExiPayloadLen :=
    Nat.lt_min.mpr ⟨by omega, _h.2⟩
  omega

/-- `encode_growing`. -/
def encodeGrowing (encode : SliceEncoder) : Except ExiError (List UInt8) :=
  growFrom encode (List.replicate 4096 0) (by rw [List.length_replicate]; decide)

/-- What comes out of a run: the buffer, cut to the length of the stream. -/
def cut {buf : List UInt8}
    (run : Except ExiError Nat × { after : List UInt8 // after.length = buf.length }) :
    Except ExiError (List UInt8) :=
  run.1.map fun n => run.2.val.take n

/-- One run into a buffer of the largest size. -/
def encodeOnce (encode : SliceEncoder) : Except ExiError (List UInt8) :=
  cut (encode (List.replicate maxExiPayloadLen 0))

/-- The encoder has one stream and one result: both are those of a run into any buffer that holds
the stream, and there is nothing to be had from a smaller one. -/
structure Settled (encode : SliceEncoder) (stream : List Bool) (out : Except ExiError Nat) :
    Prop where
  other : out ≠ .error .outputFull
  whole : ∀ n, out = .ok n → 8 * n = stream.length
  fits : ∀ buf, stream.length ≤ 8 * buf.length →
    (encode buf).1 = out ∧ bitsAt (encode buf).2.val 0 stream.length = stream
  overflows : ∀ buf, 8 * buf.length < stream.length → (encode buf).1 = .error .outputFull

/-- What a program of the encoder writes is settled before the size of the buffer is. -/
theorem settled_toSliceWith (ops : List Op) (coding : ValueCoding) :
    ∃ stream out, Settled (toSliceWith ops coding) stream out := by
  obtain ⟨t', out, hemits, hwhole⟩ := emits_encode ops ⟨[], .mk .new coding 0⟩
  refine ⟨t'.bits, out, hemits.other, hwhole, fun buf hroom => ?_, fun buf hfull => ?_⟩
  · have htracks := tracks_withValueCoding buf coding
    obtain ⟨e', hrun, htracks', -⟩ := hemits.fits _ htracks (by
      rw [Encoder.capacity_eq]
      exact hroom)
    have hout : (toSliceWith ops coding buf).1 = out := by
      show resultOut (encode ops (.withValueCoding buf coding)) = out
      rw [hrun, resultOut_in]
    have hafter : (toSliceWith ops coding buf).2.val = e'.bits.buf := by
      show (resultState (encode ops (.withValueCoding buf coding))).bits.buf = e'.bits.buf
      rw [hrun, resultState_in]
    refine ⟨hout, ?_⟩
    have hbits : bitsAt e'.bits.buf 0 e'.bits.pos = t'.bits := htracks'.bits
    have hlength := congrArg List.length hbits
    rw [length_bitsAt] at hlength
    rw [hafter, ← hlength]
    exact hbits
  · obtain ⟨e', hrun, -⟩ := hemits.overflows _ (tracks_withValueCoding buf coding) (by
      rw [Encoder.capacity_eq]
      exact hfull)
    show resultOut (encode ops (.withValueCoding buf coding)) = _
    rw [hrun]
    rfl

/-- Bytes with the same bits are the same. -/
theorem take_eq_of_bitsAt {a b : List UInt8} {n : Nat} (ha : n ≤ a.length) (hb : n ≤ b.length)
    (h : bitsAt a 0 (8 * n) = bitsAt b 0 (8 * n)) : a.take n = b.take n := by
  have hbit : ∀ k < 8 * n, bitAt a k = bitAt b k := by
    intro k hk
    exact List.map_inj_left.mp h k (List.mem_range'_1.mpr ⟨Nat.zero_le k, by omega⟩)
  refine List.ext_getElem (by rw [List.length_take, List.length_take]; omega) fun i hi hi' => ?_
  rw [List.length_take] at hi hi'
  rw [List.getElem_take, List.getElem_take]
  refine UInt8.toNat_inj.mp (Nat.eq_of_testBit_eq fun j => ?_)
  by_cases hj : j < 8
  · have hsame := hbit (8 * i + (7 - j)) (by omega)
    unfold bitAt at hsame
    rw [show (8 * i + (7 - j)) / 8 = i by omega, show 7 - (8 * i + (7 - j)) % 8 = j by omega,
      List.getElem?_eq_getElem (by omega), List.getElem?_eq_getElem (by omega)] at hsame
    exact hsame
  · have hbyte : ∀ x : UInt8, x.toNat.testBit j = false := fun x =>
      Nat.testBit_lt_two_pow (x.toNat_lt.trans_le (Nat.pow_le_pow_right (by decide)
        (show 8 ≤ j by omega)))
    rw [hbyte, hbyte]

section Settled

variable {encode : SliceEncoder} {stream : List Bool} {out : Except ExiError Nat}

/-- Two buffers that hold the stream are cut to the same bytes. -/
theorem Settled.cut_eq (h : Settled encode stream out) {buf buf' : List UInt8}
    (hroom : stream.length ≤ 8 * buf.length) (hroom' : stream.length ≤ 8 * buf'.length) :
    cut (encode buf) = cut (encode buf') := by
  obtain ⟨hout, hbits⟩ := h.fits buf hroom
  obtain ⟨hout', hbits'⟩ := h.fits buf' hroom'
  unfold cut
  rw [hout, hout']
  cases hres : out with
  | error e => rfl
  | ok n =>
    have hn := h.whole n hres
    have hlen := (encode buf).2.property
    have hlen' := (encode buf').2.property
    refine congrArg Except.ok (take_eq_of_bitsAt (by omega) (by omega) ?_)
    rw [hn, hbits, hbits']

theorem Settled.cut_of_full (h : Settled encode stream out) {buf : List UInt8}
    (hfull : 8 * buf.length < stream.length) : cut (encode buf) = .error .outputFull := by
  unfold cut
  rw [h.overflows buf hfull]
  rfl

/-- From any buffer on: what an earlier run has left in it, and how often it has grown, makes no
difference. -/
theorem Settled.growFrom_eq (h : Settled encode stream out) (buf : List UInt8)
    (hpos : 0 < buf.length) (hle : buf.length ≤ maxExiPayloadLen) :
    growFrom encode buf hpos = encodeOnce encode := by
  have hlargest : (List.replicate maxExiPayloadLen (0 : UInt8)).length = maxExiPayloadLen :=
    List.length_replicate
  -- a run that ends otherwise than for want of room is the one into the largest buffer
  have hends : ∀ {buf : List UInt8}, buf.length ≤ maxExiPayloadLen →
      stream.length ≤ 8 * buf.length → cut (encode buf) = encodeOnce encode := fun hle hroom =>
    h.cut_eq hroom (by rw [hlargest]; omega)
  -- induction on how much the buffer may still grow
  fun_induction growFrom encode buf hpos with
  | case1 buf hpos n after hrun =>
    rcases Nat.lt_or_ge (8 * buf.length) stream.length with hfull | hroom
    · have herror := h.overflows buf hfull
      rw [hrun] at herror
      cases herror
    · rw [← hends hle hroom, hrun]
      rfl
  | case2 buf hpos e after hrun hgrow ih =>
    refine ih ?_
    rw [length_resize]
    exact Nat.min_le_right _ _
  | case3 buf hpos e after hrun hstop =>
    rcases Nat.lt_or_ge (8 * buf.length) stream.length with hfull | hroom
    · -- the buffer is the largest, and still too small
      have herror := h.overflows buf hfull
      rw [hrun] at herror
      obtain rfl : e = .outputFull := by
        cases herror
        rfl
      have hlast : ¬ buf.length < maxExiPayloadLen := fun hlt => hstop ⟨rfl, hlt⟩
      exact (h.cut_of_full (by rw [hlargest]; omega)).symm
    · rw [← hends hle hroom, hrun]
      rfl

theorem Settled.encodeOnce_of_full (h : Settled encode stream out)
    (hfull : 8 * maxExiPayloadLen < stream.length) : encodeOnce encode = .error .outputFull :=
  h.cut_of_full (by rwa [List.length_replicate])

theorem Settled.encodeOnce_error {e : ExiError} (h : Settled encode stream (.error e))
    (hroom : stream.length ≤ 8 * maxExiPayloadLen) : encodeOnce encode = .error e := by
  unfold encodeOnce cut
  rw [(h.fits _ (by rwa [List.length_replicate])).1]
  rfl

/-- The bytes that come out are those that hold the stream. -/
theorem Settled.encodeOnce_ok {n : Nat} (h : Settled encode stream (.ok n))
    (hroom : stream.length ≤ 8 * maxExiPayloadLen) (bytes : List UInt8) :
    encodeOnce encode = .ok bytes
      ↔ bytes.length = n ∧ bitsAt bytes 0 stream.length = stream := by
  have hlargest : (List.replicate maxExiPayloadLen (0 : UInt8)).length = maxExiPayloadLen :=
    List.length_replicate
  obtain ⟨hout, hbits⟩ := h.fits (List.replicate maxExiPayloadLen 0) (by rwa [hlargest])
  have hn := h.whole n rfl
  have hlen := (encode (List.replicate maxExiPayloadLen 0)).2.property
  have hle : n ≤ (encode (List.replicate maxExiPayloadLen 0)).2.val.length := by omega
  have honce : encodeOnce encode
      = .ok ((encode (List.replicate maxExiPayloadLen 0)).2.val.take n) := by
    unfold encodeOnce cut
    rw [hout]
    rfl
  have htake : ∀ l : List UInt8, bitsAt (l.take n) 0 stream.length = bitsAt l 0 stream.length :=
    fun l => bitsAt_congr fun k _ hk => bitAt_take (by omega)
  rw [honce]
  constructor
  · intro heq
    obtain rfl := Except.ok.inj heq
    rw [htake, List.length_take, Nat.min_eq_left hle]
    exact ⟨rfl, hbits⟩
  · rintro ⟨rfl, hsame⟩
    have htaken := take_eq_of_bitsAt hle le_rfl (by rw [hn, hbits, hsame])
    rw [htaken, List.take_length]

theorem Settled.exists_encodeOnce {n : Nat} (h : Settled encode stream (.ok n))
    (hroom : stream.length ≤ 8 * maxExiPayloadLen) : ∃ bytes, encodeOnce encode = .ok bytes := by
  unfold encodeOnce cut
  rw [(h.fits _ (by rwa [List.length_replicate])).1]
  exact ⟨_, rfl⟩

theorem Settled.encodeOnce_outputFull_iff (h : Settled encode stream out) :
    encodeOnce encode = .error .outputFull ↔ 8 * maxExiPayloadLen < stream.length := by
  refine ⟨fun hfull => ?_, h.encodeOnce_of_full⟩
  by_contra hroom
  rw [Nat.not_lt] at hroom
  cases out with
  | error e =>
    rw [h.encodeOnce_error hroom] at hfull
    exact h.other (by cases hfull; rfl)
  | ok n =>
    obtain ⟨bytes, hok⟩ := h.exists_encodeOnce hroom
    rw [hok] at hfull
    cases hfull

/-- Any error but a full buffer is the encoder's own, and comes out whatever the buffer. -/
theorem Settled.encodeOnce_error_iff (h : Settled encode stream out) {e : ExiError}
    (he : e ≠ .outputFull) :
    encodeOnce encode = .error e ↔ stream.length ≤ 8 * maxExiPayloadLen ∧ out = .error e := by
  rcases Nat.lt_or_ge (8 * maxExiPayloadLen) stream.length with hfull | hroom
  · rw [h.encodeOnce_of_full hfull]
    constructor
    · intro heq
      cases heq
      exact absurd rfl he
    · rintro ⟨hroom, -⟩
      omega
  · cases out with
    | error e' =>
      rw [h.encodeOnce_error hroom]
      exact ⟨fun heq => ⟨hroom, by cases heq; rfl⟩, fun heq => by cases heq.2; rfl⟩
    | ok n =>
      obtain ⟨bytes, hok⟩ := h.exists_encodeOnce hroom
      rw [hok]
      constructor
      · intro heq
        cases heq
      · rintro ⟨-, heq⟩
        cases heq

/-- Encoding into one buffer succeeds exactly when the stream fits and the encoder does not fail. -/
theorem Settled.encodeOnce_ok_iff (h : Settled encode stream out) (bytes : List UInt8) :
    encodeOnce encode = .ok bytes ↔ stream.length ≤ 8 * maxExiPayloadLen
      ∧ out = .ok bytes.length ∧ bitsAt bytes 0 stream.length = stream := by
  rcases Nat.lt_or_ge (8 * maxExiPayloadLen) stream.length with hfull | hroom
  · rw [h.encodeOnce_of_full hfull]
    constructor
    · intro heq
      cases heq
    · rintro ⟨hroom, -⟩
      omega
  · cases out with
    | error e =>
      rw [h.encodeOnce_error hroom]
      constructor
      · intro heq
        cases heq
      · rintro ⟨-, heq, -⟩
        cases heq
    | ok n =>
      rw [h.encodeOnce_ok hroom]
      constructor
      · rintro ⟨rfl, hbits⟩
        exact ⟨hroom, rfl, hbits⟩
      · rintro ⟨-, hn, hbits⟩
        exact ⟨(Except.ok.inj hn).symm, hbits⟩

end Settled

/-- **Growing the buffer changes nothing.** An encoder made of operations has a stream and a result
that no buffer has a say in, and to run it into a growing buffer is to run it once into the largest
one: the stream's bytes if it succeeds and fits, its own error if it comes to that within the limit,
and out of room if and only if the stream, up to its end or to the error, needs more bytes than the
largest buffer has. -/
theorem encodeGrowing_exact (ops : List Op) (coding : ValueCoding) :
    encodeGrowing (toSliceWith ops coding) = encodeOnce (toSliceWith ops coding)
      ∧ ∃ stream out, Settled (toSliceWith ops coding) stream out
        ∧ (encodeGrowing (toSliceWith ops coding) = .error .outputFull
          ↔ 8 * maxExiPayloadLen < stream.length)
        ∧ (∀ e, e ≠ .outputFull → (encodeGrowing (toSliceWith ops coding) = .error e
          ↔ stream.length ≤ 8 * maxExiPayloadLen ∧ out = .error e))
        ∧ ∀ bytes, encodeGrowing (toSliceWith ops coding) = .ok bytes
          ↔ stream.length ≤ 8 * maxExiPayloadLen ∧ out = .ok bytes.length
            ∧ bitsAt bytes 0 stream.length = stream := by
  obtain ⟨stream, out, h⟩ := settled_toSliceWith ops coding
  have hgrown : encodeGrowing (toSliceWith ops coding) = encodeOnce (toSliceWith ops coding) :=
    h.growFrom_eq _ _ (by rw [List.length_replicate]; decide)
  refine ⟨hgrown, stream, out, h, ?_⟩
  rw [hgrown]
  exact ⟨h.encodeOnce_outputFull_iff, fun e he => h.encodeOnce_error_iff he, h.encodeOnce_ok_iff⟩

/-- An octet into a buffer that is not clean, and a bit that finds a full one. -/
example : ((toSliceWith [.writeBit true, .writeBits 5 3] .literal [0xff]).1,
      (toSliceWith [.writeBit true, .writeBits 5 3] .literal [0xff]).2.val,
      (toSliceWith [.uint 1, .writeBit true] .literal [0xff]).1)
    = (.ok 1, [0xd0], .error .outputFull) := by decide +kernel

end Iso15118.Exi
