import Iso15118.Codegen.Decoded
import Iso15118.Exi.Fraction
import Iso15118.Lib.Overflow

/-!
# Scalars

The simple types of a schema, as the emitter sees them: a chain of restrictions is followed down to
a built-in type or an enumeration, its facets are gathered on the way, and what comes out is a
`Scalar`, which says how a value is written, read and, where nothing is known of it, made up.

What is made up is to pass the checks of what writes it. **`checked_minimal_iff`** says when it
does: for every scalar but a date, and a string or binary content that can have no length at all.
-/

namespace Iso15118.Codegen

open Iso15118.Lib Iso15118.Exi

/-! ## Simple types

A simple type restricts another. The integers of generated code are those of Rust, with their
bounds. -/

/-- `XSD_NS`. -/
def xsdNs : String := "http://www.w3.org/2001/XMLSchema"

/-- `SimpleType`. Its bounds are of `i128`, its lengths of `usize`. -/
structure SimpleType where
  base : Option QName
  /-- the values in document order, which is that of their indices -/
  enumeration : List String
  minInclusive : Option Int
  maxInclusive : Option Int
  maxLength : Option UInt64
  minLength : Option UInt64

/-- `TypeDef`. The layout of a complex type is made elsewhere. -/
inductive Definition where
  | simple (st : SimpleType)
  | complex

/-- The integer types of generated code. -/
inductive IntType where
  | u8
  | u16
  | u32
  | u64
  | i8
  | i16
  | i32
  | i64
  deriving DecidableEq, Repr

/-- `MIN`. -/
def IntType.min : IntType → Int
  | .u8 | .u16 | .u32 | .u64 => 0
  | .i8 => -128
  | .i16 => -32768
  | .i32 => -2147483648
  | .i64 => -9223372036854775808

/-- `MAX`. -/
def IntType.max : IntType → Int
  | .u8 => 255
  | .u16 => 65535
  | .u32 => 4294967295
  | .u64 => 18446744073709551615
  | .i8 => 127
  | .i16 => 32767
  | .i32 => 2147483647
  | .i64 => 9223372036854775807

/-- `uint_type`. -/
def uintType (hi : Int) : IntType :=
  if hi ≤ IntType.u8.max then .u8
  else if hi ≤ IntType.u16.max then .u16
  else if hi ≤ IntType.u32.max then .u32
  else .u64

/-- `int_type`. -/
def intType (lo hi : Int) : IntType :=
  if lo ≥ 0 then uintType hi
  else if lo ≥ IntType.i8.min ∧ hi ≤ IntType.i8.max then .i8
  else if lo ≥ IntType.i16.min ∧ hi ≤ IntType.i16.max then .i16
  else if lo ≥ IntType.i32.min ∧ hi ≤ IntType.i32.max then .i32
  else .i64

/-- `Scalar`. -/
inductive Scalar where
  | bool
  | uint (rust : IntType)
  | int (rust : IntType)
  | restricted (rust : IntType) (min max : Int)
  /-- the name of the generated enumeration, and the values it has -/
  | enumeration (name : String) (values : List String)
  | str (lengths : Lengths) (ctx : ValueCtx)
  | binary (lengths : Lengths)
  | decimal
  | float
  | dateTime

/-! ## Facets

On the way down only narrower facets are taken over, so what is gathered at the bottom is the
strictest of each kind. -/

/-- `Facets`. -/
structure Facets where
  maxLength : Option UInt64
  minLength : Option UInt64
  minInclusive : Option Int
  maxInclusive : Option Int

/-- `Facets::lengths`. -/
def Facets.lengths (facets : Facets) : Lengths :=
  let max := (facets.maxLength.getD 65536).toNat
  match facets.minLength with
  | none => ⟨0, max⟩
  | some min =>
      if min = 0 then ⟨0, max⟩
      else if min.toNat = max then ⟨min.toNat, min.toNat⟩
      else ⟨min.toNat, max⟩

/-- One facet of `absorb`, which can only narrow. -/
def narrow {α : Type} (pick : α → α → α) (cur new : Option α) : Option α :=
  match new with
  | none => cur
  | some v => some (cur.elim v fun cur => pick cur v)

/-- `absorb`. -/
def absorb (st : SimpleType) (facets : Facets) : Facets where
  maxLength := narrow min facets.maxLength st.maxLength
  minLength := narrow max facets.minLength st.minLength
  minInclusive := narrow max facets.minInclusive st.minInclusive
  maxInclusive := narrow min facets.maxInclusive st.maxInclusive

/-- The bounds a built-in integer has of itself. -/
def implicitRange : String → Option (Option Int × Option Int)
  | "byte" => some (some (-128), some 127)
  | "unsignedByte" => some (some 0, some 255)
  | "short" => some (some (-32768), some 32767)
  | "unsignedShort" => some (some 0, some 65535)
  | "int" => some (some IntType.i32.min, some IntType.i32.max)
  | "unsignedInt" => some (some 0, some IntType.u32.max)
  | "long" => some (some IntType.i64.min, some IntType.i64.max)
  | "unsignedLong" => some (some 0, some IntType.u64.max)
  | "nonNegativeInteger" => some (some 0, none)
  | "positiveInteger" => some (some 1, none)
  | "integer" => some (none, none)
  | _ => none

/-- What `builtin` makes of the bounds of an integer: an index into a range of 4096 values or fewer,
else an unsigned integer if there are no negative values, else a signed one. -/
def integerOf (lo hi : Option Int) : Scalar :=
  let wide := if lo.any (0 ≤ ·) then .uint (uintType (hi.getD IntType.u64.max))
    else .int (intType (lo.getD IntType.i64.min) (hi.getD IntType.i64.max))
  match lo, hi with
  | some lo, some hi => if hi ≥ lo ∧ hi - lo < 4096 then .restricted (intType lo hi) lo hi else wide
  | _, _ => wide

/-- `builtin`. -/
def builtin (localName : String) (facets : Facets) (ctx : ValueCtx) : Scalar :=
  match implicitRange localName with
  | some (lo, hi) =>
      integerOf (narrow max lo facets.minInclusive) (narrow min hi facets.maxInclusive)
  | none =>
      match localName with
      | "boolean" => .bool
      | "decimal" => .decimal
      | "float" | "double" => .float
      | "dateTime" | "date" | "time" => .dateTime
      | "hexBinary" | "base64Binary" => .binary facets.lengths
      -- all else travels as a string
      | _ => .str facets.lengths ctx

/-! ## The emitter of a module

The chain of restrictions is followed for so many turns. What cannot be resolved by then has no
scalar. -/

/-- `Emitter`: what of it decides the kind of a field. -/
structure Emitter where
  types : QName → Option Definition
  anonymous : Nat → Option Definition
  generated : QName → Bool
  reachable : QName → Bool
  /-- `prefix`: the path in front of a name from another module -/
  pathPrefix : QName → String
  typeNames : QName → Option String
  anonymousRoots : Nat → Option String
  contexts : QName → Option ValueCtx

namespace Emitter

variable (E : Emitter)

/-- `Schema::resolve`. -/
def resolve : TypeRef → Option Definition
  | .named q => E.types q
  | .anonymous i => E.anonymous i

/-- `enum_names`, as `assign_names` fills it, with the values of the type. -/
def enumName : TypeRef → Option (QName × String × List String)
  | .named q =>
      match E.types q with
      | some (.simple st) =>
          if st.enumeration = [] then none
          else (E.typeNames q).map fun rust => (q, rust, st.enumeration)
      | _ => none
  | .anonymous _ => none

/-- The partition of the strings of an element or an attribute. -/
def contextOf (owner : Option QName) : ValueCtx := (owner.bind E.contexts).getD ⟨0⟩

/-- The name of a built-in type. -/
def builtinName : TypeRef → Option String
  | .named q => if q.namespaceName = xsdNs then some q.localName else none
  | .anonymous _ => none

/-- A turn of the loop of `scalar`: what comes of the type, or the type it restricts. -/
def scalarTurn (owner : Option QName) (current : TypeRef) (facets : Facets) :
    Option (Scalar ⊕ TypeRef × Facets) :=
  match E.enumName current with
  | some (q, rust, values) =>
      if E.reachable q then some (.inl (.enumeration (E.pathPrefix q ++ rust) values)) else none
  | none =>
      match builtinName current with
      | some localName => some (.inl (builtin localName facets (E.contextOf owner)))
      | none =>
          match E.resolve current with
          | some (.simple st) =>
              st.base.map fun base => .inr (.named base, absorb st facets)
          | _ => none

/-- The loop of `scalar`. -/
def scalarWithin (owner : Option QName) : Nat → TypeRef → Facets → Option Scalar
  | 0, _, _ => none
  | n + 1, current, facets =>
      match E.scalarTurn owner current facets with
      | some (.inl s) => some s
      | some (.inr (base, facets)) => scalarWithin owner n base facets
      | none => none

/-- `Emitter::scalar`. -/
def scalar (typeRef : TypeRef) (owner : Option QName) : Option Scalar :=
  E.scalarWithin owner 16 typeRef ⟨none, none, none, none⟩

end Emitter

/-! ## Values

How a scalar is written, read and made up. Writer and reader check the same bounds, and what is
made up is checked by the writer alone. -/

/-- A value of the type a scalar has in generated code, an integer as it is handed over. -/
inductive ScalarValue where
  | bool (v : Bool)
  | uint (v : UInt64)
  | int (v : Int64)
  | enumeration (index : Nat)
  | str (v : String)
  | binary (v : List UInt8)
  | decimal (v : Decimal)
  | float (v : Exi.Float)
  | dateTime (v : DateTime)

/-- `Decimal::default`. -/
def decimalDefault : Decimal := ⟨false, 0, Fraction.zero⟩

/-- `Float::ZERO`. -/
def floatZero : Exi.Float := ⟨0, 0⟩

/-- `DateTime::default`, derived. -/
def dateTimeDefault : DateTime := ⟨0, 0, 0, 0, 0, 0, none, none⟩

namespace Scalar

/-- `Scalar::encode`. -/
def encode : Scalar → ScalarValue → EStateM ExiError Encoder Unit
  | bool, .bool v => Encoder.boolean v
  | uint _, .uint v => Encoder.uint v
  | int _, .int v => Encoder.int v
  | restricted _ min max, .int v => Encoder.restricted v (Int64.ofInt min) (Int64.ofInt max)
  | enumeration _ values, .enumeration index => Encoder.nbit index (bitWidth values.length)
  | str lengths ctx, .str v => Encoder.string ctx v lengths
  | binary lengths, .binary v => Encoder.binary v lengths
  | decimal, .decimal v => Encoder.decimal v
  | float, .float v => Encoder.float v
  | dateTime, .dateTime v => Encoder.datetime v
  -- the compiler lets no value of another type through
  | _, _ => throw .unsupportedOption

/-- `Scalar::decode`. -/
def decode : Scalar → EStateM ExiError Decoder ScalarValue
  | bool => return .bool (← Decoder.boolean)
  | uint rust => do
      let v ← Decoder.uint
      if v.toNat ≤ rust.max then return .uint v else throw .integerOverflow
  | int rust => do
      let v ← Decoder.int
      if rust.min ≤ v.toInt ∧ v.toInt ≤ rust.max then return .int v else throw .integerOverflow
  | restricted rust min max => do
      let v ← Decoder.restricted (Int64.ofInt min) (Int64.ofInt max)
      if rust.min ≤ v.toInt ∧ v.toInt ≤ rust.max then return .int v else throw .valueOutOfRange
  | enumeration _ values => do
      let index ← Decoder.nbit (bitWidth values.length)
      if index < values.length then return .enumeration index else throw .unknownEnumValue
  | str lengths ctx => return .str (← Decoder.string ctx lengths)
  | binary lengths => return .binary (← Decoder.binary lengths)
  | decimal => return .decimal (← Decoder.decimal)
  | float => return .float (← Decoder.float)
  | dateTime => return .dateTime (← Decoder.datetime)

/-- `minimal_kind` of a scalar. -/
def minimal : Scalar → ScalarValue
  | bool => .bool false
  | uint _ => .uint 0
  | int _ => .int 0
  | restricted _ min _ => .int (Int64.ofInt min)
  | enumeration _ _ => .enumeration 0
  | str lengths _ => .str (String.ofList (List.replicate lengths.min '0'))
  | binary lengths => .binary (List.replicate lengths.min 0)
  | decimal => .decimal decimalDefault
  | float => .float floatZero
  | dateTime => .dateTime dateTimeDefault

/-- What the encoder of the scalar checks of a value. -/
def Checked : Scalar → ScalarValue → Prop
  | restricted _ min max, .int v =>
      (Int64.ofInt min).toInt ≤ v.toInt ∧ v.toInt ≤ (Int64.ofInt max).toInt
  | str lengths _, .str v => lengths.admits v.length = true
  | binary lengths, .binary v => v.length < 2 ^ 64 ∧ lengths.admits v.length = true
  | float, .float v => v.isValid = true
  | dateTime, .dateTime v => v.Valid
  | bool, .bool _ | uint _, .uint _ | int _, .int _ | enumeration _ _, .enumeration _
  | decimal, .decimal _ => True
  | _, _ => False

/-- What the compiler asks of the code for a scalar: the bounds of a restricted integer are literals
of `i64`, and its type can be widened to that. -/
def Compiles : Scalar → Prop
  | restricted rust min max => rust ≠ .u64 ∧ isI64 min = true ∧ isI64 max = true
  | _ => True

/-- What can be said of every scalar that comes out of a schema. -/
def Sound : Scalar → Prop
  | restricted _ min max => min ≤ max
  | enumeration _ values => values ≠ []
  | str lengths _ | binary lengths => lengths.min < 2 ^ 64
  | _ => True

/-- A scalar whose made-up value is a value: no date, and if it has a length, one that it can
have. -/
def Fillable : Scalar → Prop
  | str lengths _ | binary lengths => lengths.min ≤ lengths.max
  | dateTime => False
  | _ => True

end Scalar

/-! ## What comes out of a schema

What holds of every scalar the emitter arrives at, kept by each turn of its loop. -/

theorem lengths_min_lt (facets : Facets) : facets.lengths.min < 2 ^ 64 := by
  unfold Facets.lengths
  dsimp only
  cases facets.minLength with
  | none => exact Nat.two_pow_pos 64
  | some min =>
    have hlt : min.toNat < 2 ^ 64 := min.toNat_lt
    dsimp only
    split
    · exact Nat.two_pow_pos 64
    · split
      · exact hlt
      · exact hlt

theorem sound_integerOf (lo hi : Option Int) : (integerOf lo hi).Sound := by
  unfold integerOf
  dsimp only
  split
  · split
    · next hrange => exact hrange.1
    · split <;> exact trivial
  · split <;> exact trivial

theorem sound_builtin (localName : String) (facets : Facets) (ctx : ValueCtx) :
    (builtin localName facets ctx).Sound := by
  have hlengths := lengths_min_lt facets
  unfold builtin
  split
  · exact sound_integerOf _ _
  · split
    all_goals first
      | exact trivial
      | exact hlengths

namespace Emitter

variable {E : Emitter}

theorem enumName_ne_nil {typeRef : TypeRef} {q : QName} {rust : String} {values : List String}
    (h : E.enumName typeRef = some (q, rust, values)) : values ≠ [] := by
  unfold enumName at h
  split at h
  · split at h
    · split at h
      · cases h
      · next hsome =>
        obtain ⟨rust', -, heq⟩ := Option.map_eq_some_iff.mp h
        cases heq
        exact hsome
    · cases h
  · cases h

/-- A scalar the resolver stops at is sound, from whatever type it got there. -/
theorem sound_scalarTurn {owner : Option QName} {current : TypeRef} {facets : Facets} {s : Scalar}
    (h : E.scalarTurn owner current facets = some (.inl s)) : s.Sound := by
  unfold scalarTurn at h
  split at h
  · next hname =>
    split at h
    · cases h
      exact enumName_ne_nil hname
    · cases h
  · split at h
    · cases h
      exact sound_builtin _ _ _
    · split at h
      · next st _ =>
        cases hbase : st.base with
        | none =>
          rw [hbase] at h
          cases h
        | some base =>
          rw [hbase] at h
          cases h
      · cases h

theorem sound_scalarWithin {owner : Option QName} {n : Nat} {current : TypeRef} {facets : Facets}
    {s : Scalar} (h : E.scalarWithin owner n current facets = some s) : s.Sound := by
  induction n generalizing current facets with
  | zero => cases h
  | succ n ih =>
    unfold scalarWithin at h
    split at h
    · next hturn =>
      cases h
      exact sound_scalarTurn hturn
    · exact ih h
    · cases h

/-- Whatever the restrictions, a scalar has a value. -/
theorem sound_scalar {typeRef : TypeRef} {owner : Option QName} {s : Scalar}
    (h : E.scalar typeRef owner = some s) : s.Sound :=
  sound_scalarWithin h

end Emitter

/-! ## Success

An action that succeeds with enough room, whatever is in the tables. Weaker than being read back,
and what encoding needs. -/

/-- From `k` to `k'` elements deep, whatever the tables and in either coding, the action ends with
`a` if there is enough room. -/
def Succeeds {α : Type} (k k' : Nat) (m : EStateM ExiError Encoder α) (a : α) : Prop :=
  ∀ f : Encoder.Context, f.depth = k → ∃ f' : Encoder.Context, ∃ need,
    f'.depth = k' ∧ Affords m f f' a need

section Succeeds

variable {α β : Type} {k k₁ k₂ : Nat} {m : EStateM ExiError Encoder α} {a : α} {b : β}
  {next : α → EStateM ExiError Encoder β}

theorem Succeeds.pure (a : α) : Succeeds k k (Pure.pure a) a :=
  fun f hf => ⟨f, 0, hf, Affords.pure a⟩

theorem Succeeds.bind (h : Succeeds k k₁ m a) (h' : Succeeds k₁ k₂ (next a) b) :
    Succeeds k k₂ (m >>= next) b := by
  intro f hf
  obtain ⟨f₁, need, hf₁, hm⟩ := h f hf
  obtain ⟨f₂, need', hf₂, hnext⟩ := h' f₁ hf₁
  exact ⟨f₂, need + need', hf₂, hm.bind hnext⟩

theorem Succeeds.of_puts {m : EStateM ExiError Encoder Unit} {bits : List Bool}
    (h : Puts ExiError.outputFull m bits) : Succeeds k k m () :=
  fun f hf => ⟨f, bits.length, hf, .of_writes (h f)⟩

theorem succeeds_event (code width : Nat) : Succeeds k k (Encoder.event code width) () :=
  .of_puts (puts_event code width)

theorem succeeds_string {ctx : ValueCtx} {value : String} {lengths : Lengths}
    (h : lengths.admits value.length = true) :
    Succeeds k k (Encoder.string ctx value lengths) () :=
  fun f hf => ⟨{ f with values := afterWritten f.values f.coding ctx value }, _, hf,
    .of_writes (writes_string h)⟩

end Succeeds

namespace Scalar

variable {s : Scalar} {v : ScalarValue}

/-- What passes the checks is written. -/
theorem succeeds_encode (h : s.Checked v) (k : Nat) : Succeeds k k (s.encode v) () := by
  cases s with
  -- a value of another type passes no check, so in each case one is left
  | bool =>
    cases v with
    | bool v => exact .of_puts (Encoder.puts_prim (BitWriter.puts_writeBit v))
    | _ => cases h
  | uint rust =>
    cases v with
    | uint v => exact .of_puts (Encoder.puts_prim (puts_writeUint v))
    | _ => cases h
  | int rust =>
    cases v with
    | int v => exact .of_puts (Encoder.puts_prim (puts_writeInt v))
    | _ => cases h
  | restricted rust min max =>
    cases v with
    | int v => exact .of_puts ((roundTrips_restricted _ _).puts v h)
    | _ => cases h
  | enumeration name values =>
    cases v with
    | enumeration index => exact .of_puts (Encoder.puts_prim (BitWriter.puts_writeBits index _))
    | _ => cases h
  | str lengths ctx =>
    cases v with
    | str v => exact succeeds_string h
    | _ => cases h
  | binary lengths =>
    cases v with
    | binary v => exact .of_puts ((roundTrips_binary_lengths lengths).puts v h)
    | _ => cases h
  | decimal =>
    cases v with
    | decimal v => exact .of_puts (Encoder.puts_prim (roundTrips_decimal.puts v trivial))
    | _ => cases h
  | float =>
    cases v with
    | float v => exact .of_puts (Encoder.puts_prim (roundTrips_float.puts v h))
    | _ => cases h
  | dateTime =>
    cases v with
    | dateTime v => exact .of_puts (Encoder.puts_prim (puts_writeDatetime h))
    | _ => cases h

/-- What is written has passed the checks. -/
theorem checked_of_encode {e e' : Encoder} (h : s.encode v e = .ok () e') : s.Checked v := by
  cases s with
  | restricted rust min max =>
    cases v with
    | int v =>
      have h : Encoder.restricted v (Int64.ofInt min) (Int64.ofInt max) e = .ok () e' := h
      unfold Encoder.restricted at h
      split at h
      · cases h
      · next hinside =>
        rw [not_or] at hinside
        exact ⟨Int.not_lt.mp hinside.1, Int.not_lt.mp hinside.2⟩
    | _ => cases h
  | str lengths ctx =>
    cases v with
    | str v =>
      obtain ⟨u, e₁, hcheck, -⟩ := bind_ok.mp h
      exact (Lengths.admits_of_check hcheck).1
    | _ => cases h
  | binary lengths =>
    cases v with
    | binary v => exact Exi.Value.valid_of_write (v := .binary lengths v) h trivial
    | _ => cases h
  | float =>
    cases v with
    | float v => exact Exi.Value.valid_of_write (v := .float v) h trivial
    | _ => cases h
  | dateTime =>
    cases v with
    | dateTime v => exact Exi.Value.valid_of_write (v := .datetime v) h trivial
    | _ => cases h
  -- the other encoders check nothing
  | _ =>
    cases v with
    | _ => first
      | exact trivial
      | cases h

/-- **A made-up value passes the checks of its encoder** unless there is none that could. -/
theorem checked_minimal_iff (hsound : s.Sound) (hcompiles : s.Compiles) :
    s.Checked s.minimal ↔ s.Fillable := by
  have hadmits : ∀ lengths : Lengths, lengths.admits lengths.min = true
      ↔ lengths.min ≤ lengths.max := by
    intro lengths
    unfold Lengths.admits
    rw [Bool.and_eq_true, decide_eq_true_eq, decide_eq_true_eq]
    exact ⟨fun h => h.2, fun h => ⟨Nat.le_refl _, h⟩⟩
  cases s with
  | restricted rust min max =>
    refine ⟨fun _ => trivial, fun _ => ?_⟩
    obtain ⟨-, hmin, hmax⟩ := hcompiles
    have hle : min ≤ max := hsound
    show (Int64.ofInt min).toInt ≤ (Int64.ofInt min).toInt
      ∧ (Int64.ofInt min).toInt ≤ (Int64.ofInt max).toInt
    rw [toInt_ofInt_of_isI64 hmin, toInt_ofInt_of_isI64 hmax]
    exact ⟨Int.le_refl _, hle⟩
  | str lengths ctx =>
    show lengths.admits (String.ofList (List.replicate lengths.min '0')).length = true ↔ _
    rw [String.length_ofList, List.length_replicate]
    exact hadmits lengths
  | binary lengths =>
    show (List.replicate lengths.min (0 : UInt8)).length < 2 ^ 64
      ∧ lengths.admits (List.replicate lengths.min (0 : UInt8)).length = true ↔ _
    rw [List.length_replicate, hadmits lengths]
    exact ⟨fun h => h.2, fun h => ⟨hsound, h⟩⟩
  | float =>
    have hvalid : floatZero.isValid = true := by decide
    exact ⟨fun _ => trivial, fun _ => hvalid⟩
  | dateTime =>
    refine ⟨fun h => ?_, fun h => h.elim⟩
    have hdate : dateTimeDefault.dateOk = true := DateTime.Valid.date h
    -- there is no month zero
    exact absurd hdate (by decide)
  | _ => exact ⟨fun _ => trivial, fun _ => trivial⟩

end Scalar

/-! ## Depth of a decoder

Scalars do not nest. Each reader is looked at once, by its text. -/

/-- A reader that succeeds is as deep as it was. -/
def KeepsDepth {α : Type} (m : EStateM ExiError Decoder α) : Prop :=
  ∀ (d : Decoder) (a : α) (d' : Decoder), m d = .ok a d' → d'.depth = d.depth

section KeepsDepth

variable {α β : Type} {m : EStateM ExiError Decoder α} {next : α → EStateM ExiError Decoder β}

theorem KeepsDepth.pure (a : α) : KeepsDepth (Pure.pure a) := by
  intro d a' d' h
  cases h
  rfl

theorem KeepsDepth.throw (x : ExiError) :
    KeepsDepth (MonadExcept.throw x : EStateM ExiError Decoder α) :=
  fun _ _ _ h => by cases h

theorem KeepsDepth.bind (h : KeepsDepth m) (h' : ∀ a, KeepsDepth (next a)) :
    KeepsDepth (m >>= next) := by
  intro d b d' hok
  obtain ⟨a, d₁, hm, hnext⟩ := bind_ok.mp hok
  exact (h' a d₁ b d' hnext).trans (h d a d₁ hm)

theorem KeepsDepth.ite {c : Prop} [Decidable c] {m' : EStateM ExiError Decoder α}
    (h : KeepsDepth m) (h' : KeepsDepth m') : KeepsDepth (if c then m else m') := by
  split
  · exact h
  · exact h'

theorem KeepsDepth.get {k : Decoder → EStateM ExiError Decoder α} (h : ∀ d, KeepsDepth (k d)) :
    KeepsDepth (MonadState.get >>= k) :=
  fun d a d' hok => h d d a d' hok

theorem KeepsDepth.prim (m : EStateM ExiError BitReader α) : KeepsDepth (Decoder.prim m) :=
  fun _ _ _ h => depth_prim h

theorem keepsDepth_check (lengths : Lengths) (len : Nat) :
    KeepsDepth (lengths.check len : EStateM ExiError Decoder Unit) :=
  .ite (.throw _) (.ite (.throw _) (.pure _))

theorem keepsDepth_resolve (found : Option String) : KeepsDepth (Decoder.resolve found) := by
  cases found with
  | none => exact .throw _
  | some value => exact .pure value

theorem keepsDepth_string (ctx : ValueCtx) (lengths : Lengths) :
    KeepsDepth (Decoder.string ctx lengths) := by
  have hinner : KeepsDepth (Decoder.stringInner ctx lengths) := by
    refine (KeepsDepth.prim readUint).bind fun marker => .ite ?_ (.ite ?_ ?_)
    · exact .get fun d => (KeepsDepth.prim _).bind fun idx => .get fun d => keepsDepth_resolve _
    · exact .get fun d => (KeepsDepth.prim _).bind fun idx => .get fun d => keepsDepth_resolve _
    · refine .ite (.throw _) ((KeepsDepth.prim _).bind fun chars d s d' h => ?_)
      -- only the table changes
      cases h
      rfl
  exact hinner.bind fun value => (keepsDepth_check _ _).bind fun _ => .pure value

theorem keepsDepth_restricted (min max : Int64) : KeepsDepth (Decoder.restricted min max) :=
  .ite (.throw _) ((KeepsDepth.prim _).bind fun _ => .ite (.throw _) (.ite (.pure _) (.throw _)))

theorem Scalar.keepsDepth_decode (s : Scalar) : KeepsDepth s.decode := by
  cases s with
  | bool => exact (KeepsDepth.prim _).bind fun v => .pure _
  | uint rust => exact (KeepsDepth.prim _).bind fun v => .ite (.pure _) (.throw _)
  | int rust => exact (KeepsDepth.prim _).bind fun v => .ite (.pure _) (.throw _)
  | restricted rust min max =>
    exact (keepsDepth_restricted _ _).bind fun v => .ite (.pure _) (.throw _)
  | enumeration name values => exact (KeepsDepth.prim _).bind fun v => .ite (.pure _) (.throw _)
  | str lengths ctx => exact (keepsDepth_string ctx lengths).bind fun v => .pure _
  | binary lengths =>
    refine KeepsDepth.bind ?_ fun v => .pure _
    exact (KeepsDepth.prim _).bind fun bytes => (keepsDepth_check _ _).bind fun _ => .pure bytes
  | decimal => exact (KeepsDepth.prim _).bind fun v => .pure _
  | float => exact (KeepsDepth.prim _).bind fun v => .pure _
  | dateTime => exact (KeepsDepth.prim _).bind fun v => .pure _

end KeepsDepth

/-- A scalar as the content of a field: within its bounds is what its encoder lets through. -/
def Scalar.codec (s : Scalar) : FieldCodec ScalarValue where
  write := s.encode
  read := s.decode
  Within := s.Checked
  keeps := s.keepsDepth_decode

end Iso15118.Codegen
