import Iso15118.Exi.StringTable

/-!
# The encoder and the decoder

A bit stream with the state of a document: the table of string values, and how deep its elements are
nested. Messages are written and read through these two and nothing else.

**`values_roundtrip`** — values of any datatypes, one after another from any position, are read back
by the readers of their datatypes; and whatever a reader returns, from anything, can be written and
is read back.
-/

namespace Iso15118.Exi

open Iso15118.Lib

/-- `Lengths`: the length facets of a string or of binary content. -/
structure Lengths where
  min : Nat
  max : Nat
  deriving DecidableEq, Repr

/-- `Lengths::admits`. -/
def Lengths.admits (l : Lengths) (len : Nat) : Bool := l.min ≤ len && len ≤ l.max

/-- `Lengths::check`. -/
def Lengths.check {σ : Type} (l : Lengths) (len : Nat) : EStateM ExiError σ Unit :=
  if len > l.max then throw .valueTooLong
  else if len < l.min then throw .valueTooShort
  else pure ()

theorem Lengths.check_of_admits {σ : Type} {l : Lengths} {len : Nat} (h : l.admits len = true) :
    (l.check len : EStateM ExiError σ Unit) = pure () := by
  unfold admits at h
  rw [Bool.and_eq_true, decide_eq_true_eq, decide_eq_true_eq] at h
  unfold check
  rw [if_neg (by omega), if_neg (by omega)]

theorem Lengths.admits_of_check {σ : Type} {l : Lengths} {len : Nat} {s s' : σ}
    (h : l.check len s = .ok () s') : l.admits len = true ∧ s' = s := by
  unfold check at h
  unfold admits
  split at h
  · cases h
  · split at h
    · cases h
    · cases h
      rw [Bool.and_eq_true, decide_eq_true_eq, decide_eq_true_eq]
      exact ⟨⟨by omega, by omega⟩, rfl⟩

/-- `restricted_width`, for bounds that are `span` apart. -/
def restrictedWidth (span : Nat) : Nat := if span + 1 < 2 ^ 64 then bitWidth (span + 1) else 64

/-- `MAX_DEPTH`. -/
def maxDepth : Nat := 64

/-- `u16::saturating_add(1)`. -/
def deeper (depth : Nat) : Nat := Nat.min (depth + 1) 65535

/-! ## The encoder

A bit stream with a table of strings and a depth. All operations but those on strings and
elements only touch the bit stream, which `prim` says once for all of them. -/

/-- `Encoder`. -/
structure Encoder where
  bits : BitWriter
  values : ValueTable
  coding : ValueCoding
  depth : Nat

namespace Encoder

/-- `Encoder::with_value_coding`. -/
def withValueCoding (buf : List UInt8) (coding : ValueCoding) : Encoder :=
  ⟨.new buf, .new, coding, 0⟩

/-- What an encoder does to its bit stream alone. -/
def prim {α : Type} (m : EStateM ExiError BitWriter α) : EStateM ExiError Encoder α := fun e =>
  match m e.bits with
  | .ok a bits => .ok a { e with bits := bits }
  | .error x bits => .error x { e with bits := bits }

/-- `Encoder::event`. -/
def event (code width : Nat) : EStateM ExiError Encoder Unit := prim (writeNbitUint code width)

/-- `Encoder::enter`. -/
def enter : EStateM ExiError Encoder Unit := do
  modify fun e => { e with depth := deeper e.depth }
  if (← get).depth > maxDepth then throw .depthLimitExceeded else pure ()

/-- `Encoder::leave`. -/
def leave : EStateM ExiError Encoder Unit := modify fun e => { e with depth := e.depth - 1 }

/-- `Encoder::uint`. -/
def uint (v : UInt64) : EStateM ExiError Encoder Unit := prim (writeUint v)

/-- `Encoder::int`. -/
def int (v : Int64) : EStateM ExiError Encoder Unit := prim (writeInt v)

/-- `Encoder::nbit`. -/
def nbit (v n : Nat) : EStateM ExiError Encoder Unit := prim (writeNbitUint v n)

/-- `Encoder::boolean`. -/
def boolean (v : Bool) : EStateM ExiError Encoder Unit := prim (writeBool v)

/-- `Encoder::restricted`. -/
def restricted (value min max : Int64) : EStateM ExiError Encoder Unit :=
  if value.toInt < min.toInt ∨ value.toInt > max.toInt then throw .valueOutOfRange
  else
    -- both differences are those of `i128`
    let span := max.toInt - min.toInt
    let index := value.toInt - min.toInt
    nbit index.toNat (restrictedWidth span.toNat)

/-- `Encoder::binary`. -/
def binary (bytes : List UInt8) (lengths : Lengths) : EStateM ExiError Encoder Unit := do
  lengths.check bytes.length
  prim (writeBinary bytes)

/-- `Encoder::decimal`. -/
def decimal (v : Decimal) : EStateM ExiError Encoder Unit := prim (writeDecimal v)

/-- `Encoder::float`. -/
def float (v : Float) : EStateM ExiError Encoder Unit := prim (writeFloat v)

/-- `Encoder::datetime`. -/
def datetime (v : DateTime) : EStateM ExiError Encoder Unit := prim (writeDatetime v)

/-- Where the encoder finds a value it may refer to. -/
def hit (coding : ValueCoding) (values : ValueTable) (ctx : ValueCtx) (value : String) : Hit :=
  match coding with
  | .referenced => values.find ctx value
  | .literal => .miss

/-- What `Encoder::string` adds to its table once a value is written out: nothing reads the table
where no references are written. -/
def remember (ctx : ValueCtx) (value : String) : EStateM ExiError Encoder Unit :=
  modify fun e =>
    match e.coding with
    | .referenced => { e with values := e.values.insert ctx value }
    | .literal => e

/-- `Encoder::string` behind its check, where the value was found in `values` or not. -/
def stringAt (values : ValueTable) (ctx : ValueCtx) (value : String) :
    Hit → EStateM ExiError Encoder Unit
  | .local idx => do
      uint 0
      nbit idx (values.localIndexWidth ctx)
  | .global idx => do
      -- not added to this context's partition: only what is written out is
      uint 1
      nbit idx values.globalIndexWidth
  | .miss => do
      uint (UInt64.ofNat value.length + 2)
      prim (writeChars value.toList)
      remember ctx value

/-- `Encoder::string`. -/
def string (ctx : ValueCtx) (value : String) (lengths : Lengths) :
    EStateM ExiError Encoder Unit := do
  lengths.check value.length
  let e ← get
  stringAt e.values ctx value (hit e.coding e.values ctx value)

/-- `Encoder::finish`: the length in bytes; what is left of the encoder is its buffer. -/
def finish : EStateM ExiError Encoder Nat := prim BitWriter.finish

/-- What writing values has no business with, in the state of a coder. -/
structure Context where
  values : ValueTable
  coding : ValueCoding
  depth : Nat

instance : Sink Encoder where
  written e := Sink.written e.bits
  room e := Sink.room e.bits
  Frame := Context
  frame e := ⟨e.values, e.coding, e.depth⟩

/-- What writes to the bit stream writes to the encoder. -/
theorem puts_prim {m : EStateM ExiError BitWriter Unit} {bits : List Bool}
    (h : Puts ExiError.outputFull m bits) : Puts ExiError.outputFull (prim m) bits := by
  intro f e hf
  obtain ⟨hfits, hfull⟩ := h _ e.bits rfl
  constructor
  · intro hroom
    obtain ⟨w, hm, hwritten, hleft, -⟩ := hfits hroom
    refine ⟨{ e with bits := w }, ?_, hwritten, hleft, hf⟩
    show prim m e = _
    rw [prim, hm]
  · intro hroom
    obtain ⟨w, hm, hprefix⟩ := hfull hroom
    refine ⟨{ e with bits := w }, ?_, hprefix⟩
    show prim m e = _
    rw [prim, hm]

theorem prim_ok {α : Type} {m : EStateM ExiError BitWriter α} {e e' : Encoder} {a : α}
    (h : prim m e = .ok a e') : ∃ w, m e.bits = .ok a w ∧ e' = { e with bits := w } := by
  unfold prim at h
  split at h
  · next w hm =>
    cases h
    exact ⟨w, hm, rfl⟩
  · cases h

end Encoder

/-! ## The decoder

The same on the side of the reader. Its table is filled whether references are used or not, since
it cannot know what the writer has chosen. -/

/-- `Decoder`. -/
structure Decoder where
  bits : BitReader
  values : ValueTable
  depth : Nat

namespace Decoder

/-- `Decoder::new`. -/
def new (buf : List UInt8) : Decoder := ⟨.new buf, .new, 0⟩

/-- What a decoder does to its bit stream alone. -/
def prim {α : Type} (m : EStateM ExiError BitReader α) : EStateM ExiError Decoder α := fun d =>
  match m d.bits with
  | .ok a bits => .ok a { d with bits := bits }
  | .error x bits => .error x { d with bits := bits }

/-- `Decoder::event`. -/
def event (width : Nat) : EStateM ExiError Decoder Nat := prim (readNbitUint width)

/-- `Decoder::expect_event`. -/
def expectEvent (code width : Nat) : EStateM ExiError Decoder Unit := do
  if (← event width) = code then pure () else throw .unknownEventCode

/-- `Decoder::enter`. -/
def enter : EStateM ExiError Decoder Unit := do
  modify fun d => { d with depth := deeper d.depth }
  if (← get).depth > maxDepth then throw .depthLimitExceeded else pure ()

/-- `Decoder::leave`. -/
def leave : EStateM ExiError Decoder Unit := modify fun d => { d with depth := d.depth - 1 }

/-- `Decoder::uint`. -/
def uint : EStateM ExiError Decoder UInt64 := prim readUint

/-- `Decoder::int`. -/
def int : EStateM ExiError Decoder Int64 := prim readInt

/-- `Decoder::nbit`. -/
def nbit (n : Nat) : EStateM ExiError Decoder Nat := prim (readNbitUint n)

/-- `Decoder::boolean`. -/
def boolean : EStateM ExiError Decoder Bool := prim readBool

/-- `Decoder::restricted`. -/
def restricted (min max : Int64) : EStateM ExiError Decoder Int64 := do
  let span := max.toInt - min.toInt
  if span < 0 then throw .valueOutOfRange
  else
    let index ← nbit (restrictedWidth span.toNat)
    if index > span.toNat then throw .valueOutOfRange
    else
      let value := min.toInt + index
      if isI64 value then return Int64.ofInt value else throw .valueOutOfRange

/-- `Decoder::binary`. -/
def binary (lengths : Lengths) : EStateM ExiError Decoder (List UInt8) := do
  let bytes ← prim (readBinary lengths.max)
  lengths.check bytes.length
  return bytes

/-- `Decoder::decimal`. -/
def decimal : EStateM ExiError Decoder Decimal := prim readDecimal

/-- `Decoder::float`. -/
def float : EStateM ExiError Decoder Float := prim readFloat

/-- `Decoder::datetime`. -/
def datetime : EStateM ExiError Decoder DateTime := prim readDatetime

/-- A value a reference names, if there is one. -/
def resolve : Option String → EStateM ExiError Decoder String
  | some value => pure value
  | none => throw .badStringTableIndex

/-- `Decoder::string_inner`. -/
def stringInner (ctx : ValueCtx) (lengths : Lengths) : EStateM ExiError Decoder String := do
  let marker ← uint
  if marker.toNat = 0 then
    let idx ← nbit ((← get).values.localIndexWidth ctx)
    resolve ((← get).values.getLocal ctx idx)
  else if marker.toNat = 1 then
    let idx ← nbit (← get).values.globalIndexWidth
    resolve ((← get).values.getGlobal idx)
  else
    let len := marker.toNat - 2
    if len > lengths.max then throw .valueTooLong
    else
      let s := String.ofList (← prim (readChars len))
      modify fun d => { d with values := d.values.insert ctx s }
      return s

/-- `Decoder::string`. -/
def string (ctx : ValueCtx) (lengths : Lengths) : EStateM ExiError Decoder String := do
  let value ← stringInner ctx lengths
  lengths.check value.length
  return value

/-- `Decoder::finish`. -/
def finish : EStateM ExiError Decoder Unit := do
  prim BitReader.skipPadding
  if (← get).bits.bitsRemaining ≠ 0 then throw .trailingData else pure ()

/-- What reading values has no business with, in the state of a decoder. -/
structure Context where
  buf : List UInt8
  values : ValueTable
  depth : Nat

instance : Source Decoder where
  rest d := Source.rest d.bits
  Frame := Context
  frame d := ⟨d.bits.buf, d.values, d.depth⟩

/-- What reads from the bit stream reads from the decoder. -/
theorem gets_prim {α : Type} {m : EStateM ExiError BitReader α} {a : α} {bits : List Bool}
    (h : Gets m a bits) : Gets (prim m) a bits := by
  intro f d more hf hrest
  obtain ⟨r, hm, hrest', hbuf⟩ := h _ d.bits more rfl hrest
  refine ⟨{ d with bits := r }, ?_, hrest', ?_⟩
  · show prim m d = _
    rw [prim, hm]
  · have hbuf : r.buf = d.bits.buf := hbuf
    rw [← hf]
    show Context.mk r.buf d.values d.depth = _
    rw [hbuf]
    rfl

theorem yields_prim {α : Type} {m : EStateM ExiError BitReader α} {P : α → Prop}
    (h : Yields m P) : Yields (prim m) P := by
  intro d a d' hok
  unfold prim at hok
  split at hok
  · next r hm =>
    cases hok
    exact h _ _ _ hm
  · cases hok

end Decoder

/-! ## Whole streams

A stream ends at a byte. The bits behind the last value are zeros on the one side and skipped on
the other, and what follows them would be an error. -/

/-- A finished stream holds what was written, and zeros up to the end of the last byte. -/
theorem Encoder.finish_eq (e : Encoder) :
    ∃ len e', Encoder.finish e = .ok len e' ∧ e'.values = e.values
      ∧ Source.rest (Decoder.new (e'.bits.buf.take len))
        = Sink.written e ++ List.replicate e.bits.padding false := by
  obtain ⟨w, len, hfinish, hle, -, hbits⟩ := e.bits.finish_eq
  refine ⟨len, { e with bits := w }, ?_, rfl, ?_⟩
  · unfold Encoder.finish Encoder.prim
    rw [hfinish]
  · exact (rest_new_take hle).trans hbits

/-- Where nothing but the zeros up to the end of a byte is left, the stream is over. -/
theorem Decoder.finish_of_padding {d : Decoder} {w : BitWriter}
    (hrest : Source.rest d = List.replicate w.padding false) : ∃ d', d.finish = .ok () d' := by
  have hpadding : w.padding < 8 := Nat.mod_lt _ (by decide)
  obtain ⟨r, hskip, hnone⟩ := BitReader.skipWithin_eq 7 d.bits (by omega) hpadding hrest
  refine ⟨{ d with bits := r }, ?_⟩
  refine bind_ok.mpr ⟨(), { d with bits := r }, ?_, ?_⟩
  · have hskip : BitReader.skipPadding d.bits = .ok () r := hskip
    unfold Decoder.prim
    rw [hskip]
  · refine bind_ok.mpr ⟨{ d with bits := r }, { d with bits := r }, rfl, ?_⟩
    rw [if_neg (by rw [hnone]; decide)]
    rfl

/-! ## Restricted integers and binary content

Both check a facet at either end, so a value that is written is one the reader lets through and
the reader returns none that could not be written. -/

theorem lt_restrictedWidth {index span : Nat} (hspan : span < 2 ^ 64) (h : index ≤ span) :
    index < 2 ^ restrictedWidth span := by
  unfold restrictedWidth
  split
  · exact lt_two_pow_bitWidth (by omega)
  · omega

/-- What a restricted integer is written as. -/
def restrictedBits (min max value : Int64) : List Bool :=
  bitsOf (restrictedWidth (max.toInt - min.toInt).toNat) (value.toInt - min.toInt).toNat

/-- A restricted integer goes out as its offset from the minimum, and comes back in its range. -/
theorem roundTrips_restricted (min max : Int64) :
    RoundTrips ExiError.outputFull (fun value => Encoder.restricted value min max)
      (Decoder.restricted min max)
      (fun value => min.toInt ≤ value.toInt ∧ value.toInt ≤ max.toInt)
      (restrictedBits min max) := by
  have hmin := min.le_toInt
  have hmax := max.toInt_lt
  refine ⟨fun value h => ?_, fun value h => ?_, ?_⟩
  · unfold Encoder.restricted
    rw [if_neg (by omega)]
    exact Encoder.puts_prim (BitWriter.puts_writeBits _ _)
  · have hlt : (value.toInt - min.toInt).toNat
        < 2 ^ restrictedWidth (max.toInt - min.toInt).toNat :=
      lt_restrictedWidth (by omega) (by omega)
    unfold Decoder.restricted
    dsimp only
    rw [if_neg (by omega)]
    refine (Decoder.gets_prim (BitReader.gets_readBits hlt)).map ?_
    -- the offset from the minimum is added back without leaving `i64`
    have hback : min.toInt + ((value.toInt - min.toInt).toNat : Int) = value.toInt := by omega
    have hisI64 : isI64 value.toInt = true := by
      have hlo := value.le_toInt
      have hhi := value.toInt_lt
      unfold isI64
      rw [Bool.and_eq_true, decide_eq_true_eq, decide_eq_true_eq]
      omega
    rw [if_neg (by omega), hback, if_pos hisI64, Int64.ofInt_toInt]
  -- a value that was read is in range, for any other offset is refused
  · unfold Decoder.restricted
    dsimp only
    split
    · exact Yields.throw
    · refine (Yields.true _).bind fun index _ => ?_
      split
      · exact Yields.throw
      · split
        · next hisI64 =>
          refine Yields.pure ?_
          rw [toInt_ofInt_of_isI64 hisI64]
          omega
        · exact Yields.throw

/-- Octets go out behind their number, and come back if there are as many as the type admits. -/
theorem roundTrips_binary_lengths (lengths : Lengths) :
    RoundTrips ExiError.outputFull (fun bytes => Encoder.binary bytes lengths)
      (Decoder.binary lengths)
      (fun bytes => bytes.length < 2 ^ 64 ∧ lengths.admits bytes.length = true) binaryBits := by
  refine ⟨fun bytes h => ?_, fun bytes h => ?_, ?_⟩
  · unfold Encoder.binary
    rw [Lengths.check_of_admits h.2]
    exact Encoder.puts_prim (puts_writeBinary h.1)
  · have hmax : bytes.length ≤ lengths.max := by
      have hadmits := h.2
      unfold Lengths.admits at hadmits
      rw [Bool.and_eq_true, decide_eq_true_eq, decide_eq_true_eq] at hadmits
      exact hadmits.2
    refine (Decoder.gets_prim (gets_readBinary h.1 hmax)).map ?_
    rw [Lengths.check_of_admits h.2]
    rfl
  · refine (Decoder.yields_prim (roundTrips_binary lengths.max).yields).bind
      fun bytes hbytes d bytes' d' hok => ?_
    obtain ⟨u, d₁, hcheck, hpure⟩ := bind_ok.mp hok
    cases hpure
    exact ⟨hbytes.1, (Lengths.admits_of_check hcheck).1⟩

/-! ## Values of any datatype

A value knows its writer and its datatype knows its reader. That the two agree is shown datatype
by datatype; sequences of values, of any datatypes and at any position, follow by induction on
the list. -/

/-- A datatype, with what its reader has to know. -/
inductive Datatype where
  | uint
  | int
  | nbit (n : Nat)
  | boolean
  | restricted (min max : Int64)
  | binary (lengths : Lengths)
  | chars (count : Nat)
  | decimal
  | float
  | datetime

/-- A value, with what its writer has to know. -/
inductive Value where
  | uint (v : UInt64)
  | int (v : Int64)
  | nbit (n v : Nat)
  | boolean (v : Bool)
  | restricted (min max v : Int64)
  | binary (lengths : Lengths) (v : List UInt8)
  | chars (v : List Char)
  | decimal (v : Decimal)
  | float (v : Float)
  | datetime (v : DateTime)

namespace Value

/-- The datatype whose reader is to read the value. -/
def datatype : Value → Datatype
  | uint _ => .uint
  | int _ => .int
  | nbit n _ => .nbit n
  | boolean _ => .boolean
  | restricted min max _ => .restricted min max
  | binary lengths _ => .binary lengths
  | chars v => .chars v.length
  | decimal _ => .decimal
  | float _ => .float
  | datetime _ => .datetime

/-- The writer of its datatype. -/
def write : Value → EStateM ExiError Encoder Unit
  | uint v => Encoder.uint v
  | int v => Encoder.int v
  | nbit n v => Encoder.nbit v n
  | boolean v => Encoder.boolean v
  | restricted min max v => Encoder.restricted v min max
  | binary lengths v => Encoder.binary v lengths
  | chars v => Encoder.prim (writeChars v)
  | decimal v => Encoder.decimal v
  | float v => Encoder.float v
  | datetime v => Encoder.datetime v

/-- What the writers' own assertions ask of their callers. -/
def Asserted : Value → Prop
  | nbit n v => n ≤ 64 ∧ v < 2 ^ n
  | restricted min max _ => min.toInt ≤ max.toInt
  | _ => True

/-- What a value is written as. -/
def bits : Value → List Bool
  | uint v => uintBits v
  | int v => intBits v
  | nbit n v => bitsOf n v
  | boolean v => [v]
  | restricted min max v => restrictedBits min max v
  | binary _ v => binaryBits v
  | chars v => charBits v
  | decimal v => decimalBits v
  | float v => floatBits v
  | datetime v => datetimeBits v

/-- The values that can be written. -/
def Valid : Value → Prop
  | nbit n v => v < 2 ^ n
  | restricted min max v => min.toInt ≤ v.toInt ∧ v.toInt ≤ max.toInt
  | binary lengths v => v.length < 2 ^ 64 ∧ lengths.admits v.length = true
  | float v => v.isValid = true
  | datetime v => v.Valid
  | _ => True

end Value

namespace Datatype

/-- The reader of the datatype. -/
def read : Datatype → EStateM ExiError Decoder Value
  | uint => return .uint (← Decoder.uint)
  | int => return .int (← Decoder.int)
  | nbit n => return .nbit n (← Decoder.nbit n)
  | boolean => return .boolean (← Decoder.boolean)
  | restricted min max => return .restricted min max (← Decoder.restricted min max)
  | binary lengths => return .binary lengths (← Decoder.binary lengths)
  | chars count => return .chars (← Decoder.prim (readChars count))
  | decimal => return .decimal (← Decoder.decimal)
  | float => return .float (← Decoder.float)
  | datetime => return .datetime (← Decoder.datetime)

/-- What the readers' own assertions ask of their callers. -/
def Asserted : Datatype → Prop
  | nbit n => n ≤ 64
  | restricted min max => min.toInt ≤ max.toInt
  | _ => True

end Datatype

namespace Value

theorem puts_write {v : Value} (h : v.Valid) : Puts ExiError.outputFull v.write v.bits := by
  cases v with
  | uint v => exact Encoder.puts_prim (puts_writeUint v)
  | int v => exact Encoder.puts_prim (puts_writeInt v)
  | nbit n v => exact Encoder.puts_prim (BitWriter.puts_writeBits v n)
  | boolean v => exact Encoder.puts_prim (BitWriter.puts_writeBit v)
  | restricted min max v => exact (roundTrips_restricted min max).puts v h
  | binary lengths v => exact (roundTrips_binary_lengths lengths).puts v h
  | chars v => exact Encoder.puts_prim (puts_writeChars v)
  | decimal v => exact Encoder.puts_prim (roundTrips_decimal.puts v trivial)
  | float v => exact Encoder.puts_prim (roundTrips_float.puts v h)
  | datetime v => exact Encoder.puts_prim (puts_writeDatetime h)

theorem gets_read {v : Value} (h : v.Valid) : Gets v.datatype.read v v.bits := by
  cases v with
  | uint v => exact (Decoder.gets_prim (gets_readUint v)).map rfl
  | int v => exact (Decoder.gets_prim (gets_readInt v)).map rfl
  | nbit n v => exact (Decoder.gets_prim (BitReader.gets_readBits h)).map rfl
  | boolean v => exact (Decoder.gets_prim (BitReader.gets_readBit v)).map rfl
  | restricted min max v => exact ((roundTrips_restricted min max).gets v h).map rfl
  | binary lengths v => exact ((roundTrips_binary_lengths lengths).gets v h).map rfl
  | chars v => exact (Decoder.gets_prim (gets_readChars v)).map rfl
  | decimal v => exact (Decoder.gets_prim (roundTrips_decimal.gets v trivial)).map rfl
  | float v => exact (Decoder.gets_prim (roundTrips_float.gets v h)).map rfl
  | datetime v => exact (Decoder.gets_prim (gets_readDatetime h)).map rfl

theorem valid_of_writeDatetime {dt : DateTime} {w w' : BitWriter}
    (h : writeDatetime dt w = .ok () w') : dt.Valid := by
  unfold writeDatetime at h
  split at h
  · next hok =>
    refine ⟨hok.1, hok.2.1, hok.2.2, fun tz htz => ?_⟩
    obtain ⟨_, w₁, -, h⟩ := bind_ok.mp h
    obtain ⟨_, w₂, -, h⟩ := bind_ok.mp h
    obtain ⟨_, w₃, -, h⟩ := bind_ok.mp h
    obtain ⟨_, w₄, -, h⟩ := bind_ok.mp h
    rw [htz] at h
    obtain ⟨_, w₅, -, h⟩ := bind_ok.mp h
    split at h
    · next hrange => exact hrange
    · cases h
  · cases h

/-- What a writer accepts is valid. -/
theorem valid_of_write {v : Value} {e e' : Encoder} (h : v.write e = .ok () e')
    (hasserted : v.Asserted) : v.Valid := by
  cases v with
  | nbit n v => exact hasserted.2
  | restricted min max v =>
    have h : Encoder.restricted v min max e = .ok () e' := h
    unfold Encoder.restricted at h
    split at h
    · cases h
    · show min.toInt ≤ v.toInt ∧ v.toInt ≤ max.toInt
      omega
  | binary lengths v =>
    obtain ⟨_, e₁, hcheck, hprim⟩ := bind_ok.mp h
    obtain ⟨w, hwrite, -⟩ := Encoder.prim_ok hprim
    unfold writeBinary at hwrite
    split at hwrite
    · next hlen => exact ⟨hlen, (Lengths.admits_of_check hcheck).1⟩
    · cases hwrite
  | float v =>
    obtain ⟨w, hwrite, -⟩ := Encoder.prim_ok h
    unfold writeFloat at hwrite
    split at hwrite
    · next hvalid => exact hvalid
    · cases hwrite
  | datetime v =>
    obtain ⟨w, hwrite, -⟩ := Encoder.prim_ok h
    exact valid_of_writeDatetime hwrite
  | _ => trivial

end Value

theorem Yields.return {α β : Type} {m : EStateM ExiError Decoder α} {P : α → Prop}
    {Q : β → Prop} {f : α → β} (h : Yields m P) (h' : ∀ a, P a → Q (f a)) :
    Yields (m >>= fun a => pure (f a)) Q :=
  h.bind fun a ha => Yields.pure (h' a ha)

/-- What a reader returns is a valid value of its datatype. -/
theorem Datatype.yields_read (k : Datatype) (h : k.Asserted) :
    Yields k.read fun v => v.datatype = k ∧ v.Asserted ∧ v.Valid := by
  cases k with
  | uint => exact Yields.return (Yields.true _) fun _ _ => ⟨rfl, trivial, trivial⟩
  | int => exact Yields.return (Yields.true _) fun _ _ => ⟨rfl, trivial, trivial⟩
  | nbit n =>
    exact Yields.return (Decoder.yields_prim (yields_readBits n)) fun v hv => ⟨rfl, ⟨h, hv⟩, hv⟩
  | boolean => exact Yields.return (Yields.true _) fun _ _ => ⟨rfl, trivial, trivial⟩
  | restricted min max =>
    exact Yields.return (roundTrips_restricted min max).yields fun v hv => ⟨rfl, h, hv⟩
  | binary lengths =>
    exact Yields.return (roundTrips_binary_lengths lengths).yields fun v hv => ⟨rfl, trivial, hv⟩
  | chars count =>
    exact Yields.return (Decoder.yields_prim (roundTrips_chars count).yields)
      fun v hv => ⟨congrArg Datatype.chars hv, trivial, trivial⟩
  | decimal => exact Yields.return (Yields.true _) fun _ _ => ⟨rfl, trivial, trivial⟩
  | float =>
    exact Yields.return (Decoder.yields_prim roundTrips_float.yields)
      fun v hv => ⟨rfl, trivial, hv⟩
  | datetime =>
    exact Yields.return (Decoder.yields_prim roundTrips_datetime.yields)
      fun v hv => ⟨rfl, trivial, hv⟩

/-- The values, one after another. -/
def writeValues : List Value → EStateM ExiError Encoder Unit
  | [] => pure ()
  | v :: vs => do
      v.write
      writeValues vs

/-- Values of the datatypes, one after another. -/
def readValues : List Datatype → EStateM ExiError Decoder (List Value)
  | [] => pure []
  | k :: ks => do
      let v ← k.read
      let vs ← readValues ks
      return v :: vs

theorem puts_writeValues {vs : List Value} (h : ∀ v ∈ vs, v.Valid) :
    Puts ExiError.outputFull (writeValues vs) (vs.flatMap Value.bits) := by
  induction vs with
  | nil => exact Puts.pure
  | cons v vs ih =>
    exact (Value.puts_write (h v List.mem_cons_self)).seq
      (ih fun v' hv' => h v' (List.mem_cons_of_mem v hv'))

theorem gets_readValues {vs : List Value} (h : ∀ v ∈ vs, v.Valid) :
    Gets (readValues (vs.map Value.datatype)) vs (vs.flatMap Value.bits) := by
  induction vs with
  | nil => exact Gets.pure
  | cons v vs ih =>
    exact (Value.gets_read (h v List.mem_cons_self)).bind
      ((ih fun v' hv' => h v' (List.mem_cons_of_mem v hv')).map rfl)

theorem valid_of_writeValues {vs : List Value} {e e' : Encoder}
    (h : writeValues vs e = .ok () e') (hasserted : ∀ v ∈ vs, v.Asserted) :
    ∀ v ∈ vs, v.Valid := by
  induction vs generalizing e with
  | nil => exact fun v hv => by cases hv
  | cons v vs ih =>
    obtain ⟨_, e₁, hv, hvs⟩ := bind_ok.mp h
    intro v' hv'
    rcases List.mem_cons.mp hv' with rfl | hmem
    · exact Value.valid_of_write hv (hasserted v' List.mem_cons_self)
    · exact ih hvs (fun v'' hv'' => hasserted v'' (List.mem_cons_of_mem v hv'')) v' hmem

/-- A decoder that starts where `e` stood, over what `e'` has in its buffer; its table and its depth
are of no consequence. -/
def readsFrom (e e' : Encoder) (values : ValueTable) (depth : Nat)
    (h : e.bits.pos ≤ 8 * e'.bits.buf.length) : Decoder :=
  ⟨⟨e'.bits.buf, e.bits.pos, h⟩, values, depth⟩

/-- The bits a decoder has ahead, that starts where an encoder stood before it wrote some. -/
theorem rest_readsFrom {e e' : Encoder} {bits : List Bool} (values : ValueTable) (depth : Nat)
    (hwritten : Sink.written e' = Sink.written e ++ bits)
    (h : e.bits.pos ≤ 8 * e'.bits.buf.length) :
    Source.rest (readsFrom e e' values depth h)
      = bits ++ bitsAt e'.bits.buf e'.bits.pos (8 * e'.bits.buf.length - e'.bits.pos) := by
  have hinside := e'.bits.inside
  have hwritten' : bitsAt e'.bits.buf 0 e'.bits.pos = bitsAt e.bits.buf 0 e.bits.pos ++ bits :=
    hwritten
  have hlen := congrArg List.length hwritten'
  rw [List.length_append, length_bitsAt, length_bitsAt] at hlen
  rw [hlen, bitsAt_add, Nat.zero_add] at hwritten'
  have hbits := List.append_inj_right hwritten' (by simp)
  show bitsAt e'.bits.buf e.bits.pos (8 * e'.bits.buf.length - e.bits.pos) = _
  rw [show 8 * e'.bits.buf.length - e.bits.pos
      = bits.length + (8 * e'.bits.buf.length - e'.bits.pos) by omega,
    bitsAt_add, hbits, ← hlen]

/-- What an encoder has written it is past. -/
theorem pos_of_written {e e' : Encoder} {bits : List Bool}
    (h : Sink.written e' = Sink.written e ++ bits) :
    e'.bits.pos = e.bits.pos + bits.length := by
  have hlen := congrArg List.length h
  rw [List.length_append] at hlen
  rw [← BitWriter.length_written e'.bits, ← BitWriter.length_written e.bits]
  exact hlen

/-- A decoder with nothing ahead but what an encoder did not write stands where that one stopped. -/
theorem pos_of_rest {d : Decoder} {e : Encoder} (hbuf : d.bits.buf = e.bits.buf)
    (hrest : Source.rest d = bitsAt e.bits.buf e.bits.pos (8 * e.bits.buf.length - e.bits.pos)) :
    d.bits.pos = e.bits.pos := by
  have hinside := e.bits.inside
  have hinside' := d.bits.inside
  have hleft := congrArg List.length hrest
  have hleft : 8 * d.bits.buf.length - d.bits.pos = 8 * e.bits.buf.length - e.bits.pos := by
    rw [length_bitsAt] at hleft
    exact (BitReader.length_rest d.bits).symm.trans hleft
  rw [hbuf] at hleft hinside'
  omega

/-- A decoder that has read what an encoder wrote stands where the encoder stopped. -/
theorem reads_back {α : Type} {m : EStateM ExiError Decoder α} {a : α} {bits : List Bool}
    {e e' : Encoder} (hgets : Gets m a bits)
    (hwritten : Sink.written e' = Sink.written e ++ bits) :
    ∃ h : e.bits.pos ≤ 8 * e'.bits.buf.length, ∀ values depth, ∃ d',
      m (readsFrom e e' values depth h) = .ok a d' ∧ d'.bits.pos = e'.bits.pos := by
  have hinside := e'.bits.inside
  have hpos := pos_of_written hwritten
  refine ⟨by omega, fun values depth => ?_⟩
  obtain ⟨d', hread, hrest, hframe⟩ := hgets _ _ _ rfl
    (rest_readsFrom values depth hwritten (by omega))
  exact ⟨d', hread, pos_of_rest (congrArg Decoder.Context.buf hframe) hrest⟩

/-- An action that succeeds has written what it puts. -/
theorem written_of_puts {m : EStateM ExiError Encoder Unit} {bits : List Bool} {e e' : Encoder}
    (h : Puts ExiError.outputFull m bits) (hok : m e = .ok () e') :
    Sink.written e' = Sink.written e ++ bits := by
  by_cases hroom : bits.length ≤ Sink.room e
  · obtain ⟨e₁, hm, hwritten, -⟩ := (h _ e rfl).1 hroom
    rw [hok] at hm
    cases hm
    exact hwritten
  · obtain ⟨e₁, hm, -⟩ := (h _ e rfl).2 (by omega)
    rw [hok] at hm
    cases hm

/-- **Values are read back**, of any datatypes and from any position: if the writers take them, one
after another, then the readers return them and stop at the bit where the writers did. And what a
reader returns, from any stream, its writer takes wherever there is room for it, and it is read
back. -/
theorem values_roundtrip :
    (∀ (vs : List Value) (e e' : Encoder), (∀ v ∈ vs, v.Asserted) → writeValues vs e = .ok () e' →
      ∃ h : e.bits.pos ≤ 8 * e'.bits.buf.length, ∀ values depth, ∃ d',
        readValues (vs.map Value.datatype) (readsFrom e e' values depth h) = .ok vs d'
          ∧ d'.bits.pos = e'.bits.pos)
    ∧ ∀ (k : Datatype) (d d' : Decoder) (v : Value), k.Asserted → k.read d = .ok v d' →
      v.datatype = k ∧ v.Asserted ∧
        ∀ e : Encoder, e.bits.pos + v.bits.length ≤ 8 * e.bits.buf.length →
          ∃ e', v.write e = .ok () e' ∧
            ∃ h : e.bits.pos ≤ 8 * e'.bits.buf.length, ∀ values depth, ∃ d'',
              k.read (readsFrom e e' values depth h) = .ok v d'' ∧ d''.bits.pos = e'.bits.pos := by
  constructor
  · intro vs e e' hasserted hok
    have hvalid := valid_of_writeValues hok hasserted
    exact reads_back (gets_readValues hvalid) (written_of_puts (puts_writeValues hvalid) hok)
  · intro k d d' v hasserted hread
    obtain ⟨rfl, hv, hvalid⟩ := k.yields_read hasserted d v d' hread
    refine ⟨rfl, hv, fun e hroom => ?_⟩
    obtain ⟨e', hwrite, hwritten, -⟩ := (Value.puts_write hvalid _ e rfl).1 (by
      show v.bits.length ≤ 8 * e.bits.buf.length - e.bits.pos
      omega)
    exact ⟨e', hwrite, reads_back (Value.gets_read hvalid) hwritten⟩

/-- A Boolean and three bits, in a byte that was not clean; and a Boolean from the front of a
byte. -/
theorem values_roundtrip_byte :
    (∃ e', writeValues [.boolean true, .nbit 3 5] (.withValueCoding [0xff] .literal) = .ok () e' ∧
      ∃ h, ∀ values depth, ∃ d',
        readValues [.boolean, .nbit 3]
            (readsFrom (.withValueCoding [0xff] .literal) e' values depth h)
            = .ok [.boolean true, .nbit 3 5] d'
          ∧ d'.bits.pos = e'.bits.pos)
    ∧ ∃ e', (Value.boolean true).write (.withValueCoding [0xff] .literal) = .ok () e' ∧
      ∃ h, ∀ values depth, ∃ d'',
        Datatype.boolean.read (readsFrom (.withValueCoding [0xff] .literal) e' values depth h)
          = .ok (.boolean true) d'' ∧ d''.bits.pos = e'.bits.pos := by
  constructor
  · refine ⟨_, rfl, values_roundtrip.1 [.boolean true, .nbit 3 5] _ _ ?_ rfl⟩
    simp [Value.Asserted]
  · exact (values_roundtrip.2 .boolean (.new [0x80]) _ (.boolean true) trivial rfl).2.2
      (.withValueCoding [0xff] .literal) (by decide)

end Iso15118.Exi
