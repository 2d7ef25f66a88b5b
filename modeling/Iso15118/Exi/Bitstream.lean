import Iso15118.Lib.Bits
import Iso15118.Exi.Basic

/-!
# The bit stream

EXI's bit-packed alignment: bits, the most significant one first, across the bytes of a buffer of
the caller's. The writer clears a byte when it first touches it, so the buffer need not be clean;
the reader takes what it is given.

To the rest of the codec the two are a sink and a source of bits, and nothing else:
**`puts_writeBits`**, **`gets_readBits`**. **`bit_roundtrip`** is what that makes of a buffer that
is written, finished, and read again.
-/

namespace Iso15118.Exi

open Iso15118.Lib

/-! ## The writer

The buffer belongs to the caller and need not be clean, so a byte is cleared when its first bit
is written. What is behind the position is of no concern, and what is before it is never touched
again. -/

/-- `BitWriter`: the buffer and the position of the next bit. Behind it, up to the end of the byte,
there are zeros. -/
structure BitWriter where
  buf : List UInt8
  pos : Nat
  inside : pos ≤ 8 * buf.length
  clean : ∀ i, pos ≤ i → i / 8 < (pos + 7) / 8 → bitAt buf i = false

namespace BitWriter

/-- `BitWriter::new`, over whatever the buffer holds. -/
def new (buf : List UInt8) : BitWriter where
  buf := buf
  pos := 0
  inside := Nat.zero_le _
  clean _ _ h := absurd h (Nat.not_lt_zero _)

/-- `BitWriter::bit_len`. -/
def bitLen (w : BitWriter) : Nat := w.pos

/-- `BitWriter::byte_len`. -/
def byteLen (w : BitWriter) : Nat := (w.pos + 7) / 8

/-- `BitWriter::is_aligned`. -/
def isAligned (w : BitWriter) : Bool := w.pos % 8 = 0

/-- The byte at `slot` with the bit at `off` written: cleared first if it is the first. -/
def slotWith (slot : UInt8) (off : Nat) (bit : Bool) : UInt8 :=
  let slot := if off = 0 then 0 else slot
  if bit then slot ||| (1 <<< UInt8.ofNat (7 - off)) else slot

theorem toNat_one_shiftLeft : ∀ n < 8, ((1 : UInt8) <<< UInt8.ofNat n).toNat = 2 ^ n := by
  decide

/-- A byte with one more bit in it: of the bits that were there the others are kept. -/
theorem testBit_slotWith (slot : UInt8) {off k : Nat} (hoff : off < 8) (hk : k < 8) (bit : Bool) :
    (slotWith slot off bit).toNat.testBit (7 - k)
      = ((bit && decide (k = off)) || (decide (off ≠ 0) && slot.toNat.testBit (7 - k))) := by
  have hslot : (if off = 0 then (0 : UInt8) else slot).toNat.testBit (7 - k)
      = (decide (off ≠ 0) && slot.toNat.testBit (7 - k)) := by
    by_cases h : off = 0
    · simp [h]
    · simp [h]
  unfold slotWith
  cases bit with
  | false => simpa using hslot
  | true =>
    dsimp only
    rw [if_pos rfl, UInt8.toNat_or, toNat_one_shiftLeft _ (by omega), Nat.testBit_or, hslot,
      Nat.testBit_two_pow, Bool.or_comm, Bool.true_and]
    congr 1
    rw [decide_eq_decide]
    omega

/-- The buffer with one more bit in it: those before it are kept, and those behind it in its byte
are zero. -/
theorem bitAt_set {buf : List UInt8} {pos : Nat} (hlt : pos / 8 < buf.length)
    (clean : ∀ i, pos ≤ i → i / 8 < (pos + 7) / 8 → bitAt buf i = false) (bit : Bool) (i : Nat)
    (hi : i / 8 < (pos + 8) / 8 ∨ i < pos) :
    bitAt (buf.set (pos / 8) (slotWith (buf[pos / 8]?.getD 0) (pos % 8) bit)) i
      = if i < pos then bitAt buf i else bit && decide (i = pos) := by
  by_cases hbyte : i / 8 = pos / 8
  · -- in the byte that is written
    have hslot := testBit_slotWith (buf[pos / 8]?.getD 0) (show pos % 8 < 8 by omega)
      (show i % 8 < 8 by omega) bit
    unfold bitAt
    rw [hbyte, List.getElem?_set_self hlt, Option.getD_some, hslot]
    by_cases hlt' : i < pos
    · rw [if_pos hlt']
      have hne : i % 8 ≠ pos % 8 := by omega
      have hoff : pos % 8 ≠ 0 := by omega
      simp [hne, hoff]
    · rw [if_neg hlt']
      have hzero : (decide (pos % 8 ≠ 0) && (buf[pos / 8]?.getD 0).toNat.testBit (7 - i % 8))
          = false := by
        by_cases hoff : pos % 8 = 0
        · simp [hoff]
        · have h := clean i (by omega) (by omega)
          unfold bitAt at h
          rw [hbyte] at h
          rw [h, Bool.and_false]
      rw [hzero, Bool.or_false]
      congr 1
      rw [decide_eq_decide]
      omega
  · have hlt' : i < pos := by omega
    unfold bitAt
    rw [List.getElem?_set_ne (Ne.symm hbyte), if_pos hlt']

/-- `BitWriter::write_bit`. -/
def writeBit (bit : Bool) : EStateM ExiError BitWriter Unit := fun w =>
  if h : w.pos / 8 < w.buf.length then
    .ok ()
      { buf := w.buf.set (w.pos / 8) (slotWith (w.buf[w.pos / 8]?.getD 0) (w.pos % 8) bit)
        pos := w.pos + 1
        inside := by rw [List.length_set]; omega
        clean := fun i hle hlt => by
          rw [bitAt_set h w.clean bit i (.inl (by omega)), if_neg (by omega)]
          simp [show i ≠ w.pos by omega] }
  else .error .outputFull w

/-- `BitWriter::write_bits`: the low `n` bits of `value`. -/
def writeBits (value : Nat) : Nat → EStateM ExiError BitWriter Unit
  | 0 => pure ()
  | n + 1 => do
      writeBit (value.testBit n)
      writeBits value n

/-- `BitWriter::write_byte`. -/
def writeByte (byte : UInt8) : EStateM ExiError BitWriter Unit := writeBits byte.toNat 8

/-- `BitWriter::write_bytes`. -/
def writeBytes : List UInt8 → EStateM ExiError BitWriter Unit
  | [] => pure ()
  | b :: bytes => do
      writeByte b
      writeBytes bytes

/-- `BitWriter::pad_to_byte`, in as many turns as the fuel allows. -/
def padWithin : Nat → EStateM ExiError BitWriter Unit
  | 0 => pure ()
  | n + 1 => do
      if (← get).isAligned then pure ()
      else
        writeBit false
        padWithin n

/-- `BitWriter::pad_to_byte`. No more than seven bits are ever missing. -/
def padToByte : EStateM ExiError BitWriter Unit := padWithin 7

/-- `BitWriter::finish`: the length of the stream in bytes. -/
def finish : EStateM ExiError BitWriter Nat := do
  padToByte
  return (← get).byteLen

/-! ### What it has written

The writer as a sink: what it holds is the front of its buffer up to the position. Every
operation is said to append so many bits, and from there on the buffer is not looked at. -/

/-- What a writer holds is the front of its buffer. -/
instance : Sink BitWriter where
  written w := bitsAt w.buf 0 w.pos
  room w := 8 * w.buf.length - w.pos
  Frame := Nat
  frame w := w.buf.length

/-- Writing a bit puts that bit into the stream, and changes no other. -/
theorem puts_writeBit (bit : Bool) : Puts ExiError.outputFull (writeBit bit) [bit] := by
  intro f w hf
  have hinside := w.inside
  constructor
  · intro hroom
    have hlt : w.pos / 8 < w.buf.length := by
      have : 1 ≤ 8 * w.buf.length - w.pos := hroom
      omega
    have hwrite : writeBit bit w = .ok () _ := dif_pos hlt
    refine ⟨_, hwrite, ?_, ?_, ?_⟩
    · show bitsAt (w.buf.set _ _) 0 (w.pos + 1) = bitsAt w.buf 0 w.pos ++ [bit]
      rw [bitsAt_add, bitsAt_succ, bitsAt_zero, Nat.zero_add]
      congr 1
      · refine bitsAt_congr fun i _ hi => ?_
        rw [bitAt_set hlt w.clean bit i (.inr (by omega)), if_pos (by omega)]
      · rw [bitAt_set hlt w.clean bit w.pos (.inl (by omega)), if_neg (Nat.lt_irrefl _)]
        simp
    · show 8 * w.buf.length - w.pos = 8 * (w.buf.set _ _).length - (w.pos + 1) + 1
      rw [List.length_set]
      omega
    · exact List.length_set.trans hf
  · intro hfull
    have hnot : ¬ w.pos / 8 < w.buf.length := by
      have : 8 * w.buf.length - w.pos < 1 := hfull
      omega
    exact ⟨w, dif_neg hnot, List.prefix_refl _⟩

theorem puts_writeBits (value n : Nat) :
    Puts ExiError.outputFull (writeBits value n) (bitsOf n value) := by
  induction n with
  | zero => exact Puts.pure
  | succ n ih => exact (puts_writeBit (value.testBit n)).seq ih

theorem puts_writeByte (byte : UInt8) :
    Puts ExiError.outputFull (writeByte byte) (bitsOf 8 byte.toNat) :=
  puts_writeBits byte.toNat 8

theorem puts_writeBytes (bytes : List UInt8) :
    Puts ExiError.outputFull (writeBytes bytes) (bytes.flatMap fun b => bitsOf 8 b.toNat) := by
  induction bytes with
  | nil => exact Puts.pure
  | cons b bytes ih => exact (puts_writeByte b).seq ih

theorem length_written (w : BitWriter) : (Sink.written w).length = w.pos := length_bitsAt ..

/-- The zeros between the stream and the end of its last byte. -/
def padding (w : BitWriter) : Nat := (8 - w.pos % 8) % 8

/-- Padding writes as many zero bits as are missing to the next byte, and no byte more. -/
theorem padWithin_eq (n : Nat) (w : BitWriter) (h : w.padding ≤ n) :
    ∃ w', padWithin n w = .ok () w' ∧ w'.buf.length = w.buf.length
      ∧ Sink.written w' = Sink.written w ++ List.replicate w.padding false := by
  have hinside := w.inside
  induction n generalizing w with
  | zero =>
    rw [Nat.le_zero.mp h]
    exact ⟨w, rfl, rfl, by simp⟩
  | succ n ih =>
    unfold padding at h ih ⊢
    by_cases haligned : w.pos % 8 = 0
    · have hpad : padWithin (n + 1) w = .ok () w := by
        show (if w.isAligned then pure () else _ : EStateM ExiError BitWriter Unit) w = _
        rw [if_pos (by simpa [isAligned] using haligned)]
        rfl
      refine ⟨w, hpad, rfl, ?_⟩
      rw [haligned]
      simp
    · -- there is room: the buffer ends with a byte
      obtain ⟨w₁, hwrite, hwritten, -, hframe⟩ := (puts_writeBit false _ w rfl).1 (by
        show 1 ≤ 8 * w.buf.length - w.pos
        omega)
      have hpos : w₁.pos = w.pos + 1 := by
        rw [← length_written w₁, hwritten, List.length_append, length_written]
        rfl
      obtain ⟨w₂, hpad, hlen, hwritten'⟩ := ih w₁ (by omega) w₁.inside
      refine ⟨w₂, ?_, hlen.trans hframe, ?_⟩
      · show (if w.isAligned then pure () else
          writeBit false >>= fun _ => padWithin n : EStateM ExiError BitWriter Unit) w = _
        rw [if_neg (by simpa [isAligned] using haligned)]
        show EStateM.bind (writeBit false) _ w = _
        rw [EStateM.bind, hwrite]
        exact hpad
      · have hsucc : (8 - w.pos % 8) % 8 = (8 - w₁.pos % 8) % 8 + 1 := by omega
        rw [hwritten', hwritten, hsucc, List.replicate_succ, List.append_assoc]
        rfl

/-- A stream can always be finished: it is padded with zeros up to its last byte. -/
theorem finish_eq (w : BitWriter) :
    ∃ w' len, finish w = .ok len w' ∧ len ≤ w'.buf.length ∧ w'.buf.length = w.buf.length
      ∧ bitsAt w'.buf 0 (8 * len) = Sink.written w ++ List.replicate w.padding false := by
  obtain ⟨w', hpad, hlen, hwritten⟩ := padWithin_eq 7 w (by unfold padding; omega)
  have hinside := w'.inside
  have hpos : w'.pos = w.pos + w.padding := by
    rw [← length_written w', hwritten, List.length_append, length_written, List.length_replicate]
  have height : 8 * w'.byteLen = w'.pos := by
    unfold byteLen
    unfold padding at hpos
    omega
  refine ⟨w', w'.byteLen, ?_, by omega, hlen, ?_⟩
  · show EStateM.bind padToByte _ w = _
    rw [EStateM.bind, show padToByte w = _ from hpad]
    rfl
  · rw [height, ← hwritten]
    rfl

end BitWriter

/-! ## The reader

The reader keeps a position in a buffer it does not change. It asks how much is left before it
takes anything, so a read that fails has taken nothing. -/

/-- `BitReader`: the buffer and the position of the next bit. -/
structure BitReader where
  buf : List UInt8
  pos : Nat
  inside : pos ≤ 8 * buf.length

namespace BitReader

/-- `BitReader::new`. -/
def new (buf : List UInt8) : BitReader := ⟨buf, 0, Nat.zero_le _⟩

/-- `BitReader::bits_remaining`. -/
def bitsRemaining (r : BitReader) : Nat := 8 * r.buf.length - r.pos

/-- `BitReader::is_aligned`. -/
def isAligned (r : BitReader) : Bool := r.pos % 8 = 0

/-- `BitReader::read_bit`. -/
def readBit : EStateM ExiError BitReader Bool := fun r =>
  if h : r.pos / 8 < r.buf.length then
    .ok (bitAt r.buf r.pos) ⟨r.buf, r.pos + 1, by omega⟩
  else .error .unexpectedEnd r

/-- The loop of `BitReader::read_bits`, from what it has accumulated. -/
def readBitsFrom (acc : Nat) : Nat → EStateM ExiError BitReader Nat
  | 0 => pure acc
  | n + 1 => do
      let bit ← readBit
      readBitsFrom (2 * acc + bit.toNat) n

/-- `BitReader::read_bits`: nothing is read of a value that is not all there. -/
def readBits (n : Nat) : EStateM ExiError BitReader Nat := do
  if n > (← get).bitsRemaining then throw .unexpectedEnd
  else readBitsFrom 0 n

/-- `BitReader::read_byte`. -/
def readByte : EStateM ExiError BitReader UInt8 := do
  return UInt8.ofNat (← readBits 8)

/-- The loop of `BitReader::read_bytes`. -/
def readBytesFrom : Nat → EStateM ExiError BitReader (List UInt8)
  | 0 => pure []
  | n + 1 => do
      let byte ← readByte
      let bytes ← readBytesFrom n
      return byte :: bytes

/-- `BitReader::read_bytes` of `n` bytes. -/
def readBytes (n : Nat) : EStateM ExiError BitReader (List UInt8) := do
  if n * 8 > (← get).bitsRemaining then throw .unexpectedEnd
  else readBytesFrom n

/-- `BitReader::skip_padding`, in as many turns as the fuel allows. -/
def skipWithin : Nat → EStateM ExiError BitReader Unit
  | 0 => pure ()
  | n + 1 => do
      if (← get).isAligned then pure ()
      else if ← readBit then throw .nonZeroPadding
      else skipWithin n

/-- `BitReader::skip_padding`. No more than seven bits are ever left of a byte. -/
def skipPadding : EStateM ExiError BitReader Unit := skipWithin 7

/-! ### What is left

The reader as a source: what it has ahead is the buffer from its position on. Each read takes its
bits from the front, by induction on how many there are. -/

instance : Source BitReader where
  rest r := bitsAt r.buf r.pos r.bitsRemaining
  Frame := List UInt8
  frame r := r.buf

theorem gets_readBit (bit : Bool) : Gets readBit bit [bit] := by
  intro f r more hf hrest
  have hinside := r.inside
  have hrest' : bitsAt r.buf r.pos r.bitsRemaining = bit :: more := hrest
  have hlen := congrArg List.length hrest'
  rw [length_bitsAt, List.length_cons] at hlen
  have hremaining : r.bitsRemaining = 8 * r.buf.length - r.pos := rfl
  have hlt : r.pos / 8 < r.buf.length := by omega
  rw [hlen, bitsAt_succ] at hrest'
  obtain ⟨hbit, hmore⟩ := List.cons.inj hrest'
  refine ⟨⟨r.buf, r.pos + 1, by omega⟩, ?_, ?_, hf⟩
  · show readBit r = _
    rw [readBit, dif_pos hlt, hbit]
  · show bitsAt r.buf (r.pos + 1) (8 * r.buf.length - (r.pos + 1)) = more
    rw [← hmore]
    congr 1
    omega

theorem gets_readBitsFrom (acc : Nat) (bits : List Bool) :
    Gets (readBitsFrom acc bits.length) (2 ^ bits.length * acc + ofBits bits) bits := by
  induction bits generalizing acc with
  | nil =>
    rw [List.length_nil, Nat.pow_zero, Nat.one_mul]
    exact Gets.pure
  | cons b bits ih =>
    have h := (gets_readBit b).bind
      (k := fun bit => readBitsFrom (2 * acc + bit.toNat) bits.length) (ih (2 * acc + b.toNat))
    have heq : 2 ^ bits.length * (2 * acc + b.toNat) + ofBits bits
        = 2 ^ (b :: bits).length * acc + ofBits (b :: bits) := by
      rw [ofBits_cons, List.length_cons, Nat.pow_succ, Nat.mul_add, ← Nat.mul_assoc, Nat.add_assoc]
    rw [heq] at h
    exact h

/-- What is left is as long as the reader says. -/
theorem length_rest (r : BitReader) : (Source.rest r).length = r.bitsRemaining := length_bitsAt ..

/-- A check on how much is left does not get in the way of what is there. -/
theorem gets_guard {α : Type} {m : EStateM ExiError BitReader α} {a : α} {bits : List Bool}
    {n : Nat} (h : Gets m a bits) (hn : n ≤ bits.length) :
    Gets (do if n > (← get).bitsRemaining then throw .unexpectedEnd else m) a bits := by
  intro f r more hf hrest
  have hlen := congrArg List.length hrest
  rw [length_rest, List.length_append] at hlen
  obtain ⟨r', hm, hrest', hframe⟩ := h f r more hf hrest
  refine ⟨r', ?_, hrest', hframe⟩
  show (if n > r.bitsRemaining then throw .unexpectedEnd else m :
    EStateM ExiError BitReader α) r = _
  rw [if_neg (by omega)]
  exact hm

theorem gets_readBits {value n : Nat} (h : value < 2 ^ n) :
    Gets (readBits n) value (bitsOf n value) := by
  have hloop := gets_readBitsFrom 0 (bitsOf n value)
  rw [length_bitsOf, Nat.mul_zero, Nat.zero_add, ofBits_bitsOf h] at hloop
  exact gets_guard hloop (by rw [length_bitsOf])

theorem gets_readByte (byte : UInt8) : Gets readByte byte (bitsOf 8 byte.toNat) := by
  have hlt : byte.toNat < 2 ^ 8 := byte.toNat_lt
  refine (gets_readBits hlt).map ?_
  rw [UInt8.ofNat_toNat]

theorem gets_readBytesFrom (bytes : List UInt8) :
    Gets (readBytesFrom bytes.length) bytes (bytes.flatMap fun b => bitsOf 8 b.toNat) := by
  induction bytes with
  | nil => exact Gets.pure
  | cons b bytes ih => exact (gets_readByte b).bind (ih.map rfl)

theorem length_flatMap_bitsOf (bytes : List UInt8) :
    (bytes.flatMap fun b => bitsOf 8 b.toNat).length = bytes.length * 8 := by
  induction bytes with
  | nil => rfl
  | cons b bytes ih =>
    rw [List.flatMap_cons, List.length_append, length_bitsOf, ih, List.length_cons]
    omega

theorem gets_readBytes (bytes : List UInt8) :
    Gets (readBytes bytes.length) bytes (bytes.flatMap fun b => bitsOf 8 b.toNat) :=
  gets_guard (gets_readBytesFrom bytes) (by rw [length_flatMap_bitsOf])

/-- Zeros up to the end of the byte are skipped. -/
theorem skipWithin_eq (n : Nat) (r : BitReader) (hn : (8 - r.pos % 8) % 8 ≤ n) {k : Nat}
    (hk : k < 8) (hrest : Source.rest r = List.replicate k false) :
    ∃ r', skipWithin n r = .ok () r' ∧ r'.bitsRemaining = 0 := by
  have hinside := r.inside
  have hlen := congrArg List.length hrest
  rw [length_rest, List.length_replicate] at hlen
  have hremaining : r.bitsRemaining = 8 * r.buf.length - r.pos := rfl
  induction n generalizing r k with
  | zero => exact ⟨r, rfl, by omega⟩
  | succ n ih =>
    -- aligned: nothing to skip
    by_cases haligned : r.pos % 8 = 0
    · refine ⟨r, ?_, by omega⟩
      show (if r.isAligned then pure () else _ : EStateM ExiError BitReader Unit) r = _
      rw [if_pos (by simpa [isAligned] using haligned)]
      rfl
    -- one more bit of padding, which is zero
    · cases k with
      | zero => omega
      | succ k =>
        rw [List.replicate_succ] at hrest
        obtain ⟨r₁, hread, hrest₁, hframe⟩ := gets_readBit false _ r _ rfl hrest
        have hbuf : r₁.buf = r.buf := hframe
        have hlen₁ := congrArg List.length hrest₁
        rw [length_rest, List.length_replicate] at hlen₁
        have hremaining₁ : r₁.bitsRemaining = 8 * r₁.buf.length - r₁.pos := rfl
        have hinside₁ := r₁.inside
        rw [hbuf] at hremaining₁ hinside₁
        have hpos : r₁.pos = r.pos + 1 := by omega
        obtain ⟨r₂, hskip, hnone⟩ := ih r₁ (by omega) (by omega) hrest₁ r₁.inside hlen₁ rfl
        refine ⟨r₂, ?_, hnone⟩
        show (if r.isAligned then pure () else
          readBit >>= fun bit => if bit then throw .nonZeroPadding else skipWithin n :
            EStateM ExiError BitReader Unit) r = _
        rw [if_neg (by simpa [isAligned] using haligned)]
        show EStateM.bind readBit _ r = _
        rw [EStateM.bind, hread]
        exact hskip

end BitReader

/-! ## Both

Written and read in one buffer: what the writer has appended is what the reader has ahead, up to
the zeros that fill the last byte. -/

/-- A value and the number of bits it is written in. -/
structure Chunk where
  value : Nat
  width : Nat
  width_le : width ≤ 64
  value_lt : value < 2 ^ width

/-- The chunks, one after another. -/
def writeChunks : List Chunk → EStateM ExiError BitWriter Unit
  | [] => pure ()
  | c :: chunks => do
      BitWriter.writeBits c.value c.width
      writeChunks chunks

/-- Numbers of the given widths, one after another. -/
def readWidths : List Nat → EStateM ExiError BitReader (List Nat)
  | [] => pure []
  | n :: widths => do
      let value ← BitReader.readBits n
      let values ← readWidths widths
      return value :: values

/-- The bits of the chunks. -/
def chunkBits (chunks : List Chunk) : List Bool := chunks.flatMap fun c => bitsOf c.width c.value

theorem puts_writeChunks (chunks : List Chunk) :
    Puts ExiError.outputFull (writeChunks chunks) (chunkBits chunks) := by
  induction chunks with
  | nil => exact Puts.pure
  | cons c chunks ih => exact (BitWriter.puts_writeBits c.value c.width).seq ih

theorem gets_readWidths (chunks : List Chunk) :
    Gets (readWidths (chunks.map Chunk.width)) (chunks.map Chunk.value) (chunkBits chunks) := by
  induction chunks with
  | nil => exact Gets.pure
  | cons c chunks ih => exact (BitReader.gets_readBits c.value_lt).bind (ih.map rfl)

theorem length_chunkBits (chunks : List Chunk) :
    (chunkBits chunks).length = (chunks.map Chunk.width).sum := by
  induction chunks with
  | nil => rfl
  | cons c chunks ih =>
    rw [List.map_cons, List.sum_cons, ← ih]
    simp [chunkBits]

/-- A reader over the front of a buffer has the bits of it ahead. -/
theorem rest_new_take {buf : List UInt8} {len : Nat} (h : len ≤ buf.length) :
    Source.rest (BitReader.new (buf.take len)) = bitsAt buf 0 (8 * len) := by
  show bitsAt (buf.take len) 0 (8 * (buf.take len).length - 0) = _
  rw [List.length_take, Nat.min_eq_left h, Nat.sub_zero]
  exact bitsAt_congr fun i _ hi => bitAt_take (by omega)

/-- **What is written is read back.** Whatever the buffer held before: chunks that fit are written,
the stream is finished, and a reader over it returns the values in order, with nothing behind them
but the padding. A chunk that does not fit is refused, at any point of any stream, and the bits
written before it stay. -/
theorem bit_roundtrip :
    (∀ (buf : List UInt8) (chunks : List Chunk), (chunks.map Chunk.width).sum ≤ 8 * buf.length →
      ∃ w w' len r r', writeChunks chunks (.new buf) = .ok () w ∧ w.finish = .ok len w'
        ∧ readWidths (chunks.map Chunk.width) (.new (w'.buf.take len))
            = .ok (chunks.map Chunk.value) r
        ∧ r.bitsRemaining < 8 ∧ BitReader.skipPadding r = .ok () r' ∧ r'.bitsRemaining = 0)
    ∧ ∀ (w : BitWriter) (c : Chunk), 8 * w.buf.length < w.pos + c.width →
      ∃ w', BitWriter.writeBits c.value c.width w = .error .outputFull w'
        ∧ bitsAt w'.buf 0 w.pos = bitsAt w.buf 0 w.pos := by
  constructor
  · intro buf chunks hfits
    obtain ⟨w, hwrite, hwritten, -, -⟩ := (puts_writeChunks chunks _ (.new buf) rfl).1 (by
      rw [length_chunkBits]
      exact hfits)
    obtain ⟨w', len, hfinish, hle, -, hbits⟩ := w.finish_eq
    have hrest : Source.rest (BitReader.new (w'.buf.take len))
        = chunkBits chunks ++ List.replicate w.padding false := by
      rw [rest_new_take hle, hbits, hwritten]
      rfl
    obtain ⟨r, hread, hrest', -⟩ := gets_readWidths chunks _ _ _ rfl hrest
    -- what is left is the padding of the last byte, and it is all zeros
    have hpadding : w.padding < 8 := Nat.mod_lt _ (by decide)
    have hleft := congrArg List.length hrest'
    rw [BitReader.length_rest, List.length_replicate] at hleft
    obtain ⟨r', hskip, hnone⟩ := BitReader.skipWithin_eq 7 r (by omega) hpadding hrest'
    exact ⟨w, w', len, r, r', hwrite, hfinish, hread, by omega, hskip, hnone⟩
  · intro w c hfull
    obtain ⟨w', hwrite, hprefix⟩ := (BitWriter.puts_writeBits c.value c.width _ w rfl).2 (by
      rw [length_bitsOf]
      show 8 * w.buf.length - w.pos < c.width
      have hinside := w.inside
      omega)
    refine ⟨w', hwrite, ?_⟩
    obtain ⟨more, hmore⟩ := hprefix
    have hmore : bitsAt w.buf 0 w.pos ++ more = bitsAt w'.buf 0 w'.pos := hmore
    have hlen := congrArg List.length hmore
    rw [List.length_append, length_bitsAt, length_bitsAt] at hlen
    rw [← hlen, bitsAt_add] at hmore
    exact (List.append_inj_left hmore (by simp)).symm

/-- Five bits over two dirty bytes, and one bit that finds no byte at all. -/
theorem bit_roundtrip_dirty :
    (∃ w w' len r r',
      writeChunks [⟨5, 3, by decide, by decide⟩, ⟨3, 2, by decide, by decide⟩] (.new [0xff, 0xff])
          = .ok () w
        ∧ w.finish = .ok len w'
        ∧ readWidths [3, 2] (.new (w'.buf.take len)) = .ok [5, 3] r
        ∧ r.bitsRemaining < 8 ∧ BitReader.skipPadding r = .ok () r' ∧ r'.bitsRemaining = 0)
    ∧ ∃ w', BitWriter.writeBits 1 1 (.new []) = .error .outputFull w'
        ∧ bitsAt w'.buf 0 0 = bitsAt [] 0 0 :=
  ⟨bit_roundtrip.1 [0xff, 0xff] [⟨5, 3, by decide, by decide⟩, ⟨3, 2, by decide, by decide⟩]
      (by decide),
    bit_roundtrip.2 (.new []) ⟨1, 1, by decide, by decide⟩ (by decide)⟩

end Iso15118.Exi
