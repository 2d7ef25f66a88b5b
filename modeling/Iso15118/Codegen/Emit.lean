import Iso15118.Codegen.Coding
import Iso15118.Exi.Carries

/-!
# Generated structs

What the emitter makes of a layout: a struct with a field for each item whose type it can name,
`encode_body` and `decode_body` around them, and nothing but event codes for the others, the
*phantoms*.

The generated code is modelled as what it does, with what it calls for the content of a field as a
parameter; a field's value is the list of its occurrences with the branches they are in, whether it
is a `Vec`, an `Option` or bare.
-/

namespace Iso15118.Codegen

open Iso15118.Lib Iso15118.Exi

/-! ## Fields

An item becomes a field if its types can be named, and a phantom if it is optional and they
cannot. A required item that cannot be named is an error of the whole struct. -/

/-- What the content of a field is of: an element's or an attribute's, or the character data of a
type. -/
inductive Slot where
  | field (f : Field)
  | text (typeRef : TypeRef)
  deriving DecidableEq, Repr

/-- `Kind`, up to the code of a scalar and the name of a struct. -/
inductive Kind where
  | scalar
  | struct
  | unsupported
  deriving DecidableEq, Repr

/-- `FieldKind`. -/
inductive FieldKind where
  | single (kind : Kind) (slot : Slot)
  | choice (variants : List (Kind × Slot))
  deriving DecidableEq, Repr

/-- `Emitted`: a resolved field. -/
structure Emitted where
  kind : FieldKind
  min : Nat
  max : Nat
  isAttribute : Bool
  /-- the item occupies event codes but has no field -/
  phantom : Bool
  deriving DecidableEq, Repr

/-- What the emitter knows of the schema: the kind of each field, and which types are scalars. -/
structure Resolver where
  kind : Field → Kind
  scalar : TypeRef → Bool

/-- A name as errors spell it. -/
def QName.display (name : QName) : String :=
  if name.namespaceName = "" then name.localName
  else "\x7b" ++ name.namespaceName ++ "\x7d" ++ name.localName

/-- The variants of a choice, unless one of its branches has no type of its own. -/
def variantsOf (res : Resolver) : List Branch → Option (List (Kind × Slot))
  | [] => some []
  | .wildcard :: _ => none
  | .element f :: branches =>
      if res.kind f = .unsupported then none
      else (variantsOf res branches).map fun variants => (res.kind f, .field f) :: variants

/-- The field of an element or an attribute. -/
def fieldOfSlot (res : Resolver) (owner : String) (isAttribute : Bool) (f : Field) :
    Except String Emitted :=
  let phantom := res.kind f = .unsupported
  if phantom ∧ f.min > 0 then
    .error (owner ++ ": required child " ++ f.name.display ++ " has a type that is not generated")
  else .ok ⟨.single (res.kind f) (.field f), f.min, f.max, isAttribute, phantom⟩

/-- `field_of`. -/
def fieldOf (res : Resolver) (owner : String) : Item → Except String Emitted
  | .attribute f => fieldOfSlot res owner true f
  | .element f => fieldOfSlot res owner false f
  | .characters typeRef =>
      if ¬ res.scalar typeRef then .error (owner ++ ": simple content is not a scalar")
      -- simple content is written like an attribute's
      else .ok ⟨.single .scalar (.text typeRef), 1, 1, true, false⟩
  | .wildcard min max =>
      if min > 0 then .error (owner ++ ": a required xs:any cannot be represented")
      else .ok ⟨.single .unsupported (.text (.anonymous 0)), min, max, false, true⟩
  | .choice branches min max =>
      match variantsOf res branches with
      | some variants => .ok ⟨.choice variants, min, max, false, false⟩
      | none =>
          if min > 0 then
            .error (owner ++ ": a required choice has a branch that is not generated")
          else .ok ⟨.single .unsupported (.text (.anonymous 0)), min, max, false, true⟩

/-- What a field takes over from its item: a phantom is optional, and any other has as many variants
as the item has codes, each of a type that is generated. -/
structure Emitted.Of (f : Emitted) (item : Item) : Prop where
  min : f.min = item.min
  max : f.max = item.max
  optional : f.phantom = true → item.min = 0
  single : f.phantom = false → ∀ kind slot, f.kind = .single kind slot →
    item.productions = 1 ∧ kind ≠ .unsupported
  choice : f.phantom = false → ∀ variants, f.kind = .choice variants →
    variants.length = item.productions ∧ ∀ v ∈ variants, v.1 ≠ .unsupported

theorem variantsOf_eq_some {res : Resolver} {branches : List Branch}
    {variants : List (Kind × Slot)} (h : variantsOf res branches = some variants) :
    variants.length = branches.length ∧ ∀ v ∈ variants, v.1 ≠ .unsupported := by
  induction branches generalizing variants with
  | nil =>
    cases h
    exact ⟨rfl, fun v hv => by cases hv⟩
  | cons branch branches ih =>
    cases branch with
    | wildcard => cases h
    | element f =>
      unfold variantsOf at h
      split at h
      · cases h
      · next hkind =>
        obtain ⟨rest, hrest, heq⟩ := Option.map_eq_some_iff.mp h
        subst heq
        obtain ⟨hlen, hall⟩ := ih hrest
        exact ⟨congrArg (· + 1) hlen, List.forall_mem_cons.mpr ⟨hkind, hall⟩⟩

/-- What the emitter lets through keeps to its item. -/
theorem of_fieldOf {res : Resolver} {owner : String} {item : Item} {f : Emitted}
    (h : fieldOf res owner item = .ok f) : f.Of item := by
  -- an attribute and an element are emitted from their slot in the same way
  have hslot : ∀ {isAttribute : Bool} {field : Field} {item : Item}, item.min = field.min →
      item.max = field.max → item.productions = 1 →
      fieldOfSlot res owner isAttribute field = .ok f → f.Of item := by
    intro isAttribute field item hmin hmax hone h
    unfold fieldOfSlot at h
    dsimp only at h
    split at h
    · cases h
    · next hrequired =>
      cases h
      refine ⟨hmin.symm, hmax.symm, fun hphantom => ?_, fun hreal kind slot heq => ?_,
        (fun _ variants heq => by cases heq)⟩
      · have hphantom := of_decide_eq_true hphantom
        rw [hmin]
        -- a phantom holds no value, and is refused where one is required
        by_contra hpos
        exact hrequired ⟨hphantom, Nat.pos_of_ne_zero hpos⟩
      · cases heq
        exact ⟨hone, of_decide_eq_false hreal⟩
  cases item with
  | «attribute» field => exact hslot rfl rfl rfl h
  | element field => exact hslot rfl rfl rfl h
  | characters typeRef =>
    rw [fieldOf] at h
    split at h
    · cases h
    · cases h
      refine ⟨rfl, rfl, (fun hphantom => by cases hphantom), fun _ kind slot heq => ?_,
        (fun _ variants heq => by cases heq)⟩
      cases heq
      exact ⟨rfl, by decide⟩
  | wildcard min max =>
    rw [fieldOf] at h
    split at h
    · cases h
    · next hrequired =>
      cases h
      exact ⟨rfl, rfl, fun _ => Nat.eq_zero_of_not_pos hrequired, (fun hreal => by cases hreal),
        (fun hreal => by cases hreal)⟩
  | choice branches min max =>
    rw [fieldOf] at h
    split at h
    · next variants hvariants =>
      cases h
      refine ⟨rfl, rfl, (fun hphantom => by cases hphantom), (fun _ kind slot heq => by cases heq),
        fun _ variants' heq => ?_⟩
      cases heq
      exact variantsOf_eq_some hvariants
    · split at h
      · cases h
      · next hrequired =>
        cases h
        exact ⟨rfl, rfl, fun _ => Nat.eq_zero_of_not_pos hrequired, (fun hreal => by cases hreal),
          (fun hreal => by cases hreal)⟩

/-- The writer and the reader of a field's content, and what its bounds ask of it. A reader that
succeeds is as deep as it was. -/
structure FieldCodec (α : Type) where
  write : α → EStateM ExiError Encoder Unit
  read : EStateM ExiError Decoder α
  Within : α → Prop
  keeps : ∀ (d : Decoder) (v : α) (d' : Decoder), read d = .ok v d' → d'.depth = d.depth

/-- What is read of it, `k` elements deep, is within its bounds, and is read back from what is
written of it. -/
def FieldCodec.Faithful {α : Type} (C : FieldCodec α) (k : Nat) : Prop :=
  ∀ (d : Decoder) (v : α) (d' : Decoder), d.depth = k → C.read d = .ok v d' →
    C.Within v ∧ Carries k k (C.write v) C.read v

section Bodies

variable {α : Type} (C : Slot → FieldCodec α)

/-! ## `encode_body`

The fields in order, each with the check of how often it may occur before its occurrences are
written. -/

/-- `encode_kind`. -/
def encodeKind (kind : Kind) (isAttribute : Bool) (slot : Slot) (v : α) :
    EStateM ExiError Encoder Unit :=
  match kind with
  | .struct => (C slot).write v
  | .scalar =>
      if isAttribute then (C slot).write v
      else do
        Encoder.event 0 simpleWidth
        (C slot).write v
        Encoder.event 0 simpleWidth
  | .unsupported => throw .unsupportedOption

/-- The content of one occurrence; a value of an `enum` is in one of its variants. -/
def encodeContent (f : Emitted) (x : Nat × α) : EStateM ExiError Encoder Unit :=
  match f.kind with
  | .single kind slot => encodeKind C kind f.isAttribute slot x.2
  | .choice variants =>
      match variants[x.1]? with
      | some (kind, slot) => encodeKind C kind false slot x.2
      | none => pure ()

/-- `encode_value`: the start event of one occurrence, and its content. -/
def encodeValue (f : Emitted) (w : SeqWriter) (j c : Nat) (x : Nat × α) :
    EStateM ExiError Encoder Unit := do
  match f.kind with
  | .single _ _ => w.start j c
  | .choice _ => w.startBranch j c x.1
  encodeContent C f x

/-- A length as a `u32`. -/
def asU32 (n : Nat) : Nat := n % 2 ^ 32

/-- The loop over the occurrences of a repeated field, from the `c`-th on. -/
def encodeOccurrences (f : Emitted) (w : SeqWriter) (j : Nat) :
    Nat → List (Nat × α) → EStateM ExiError Encoder Unit
  | _, [] => pure ()
  | c, x :: xs => do
      encodeValue C f w j (asU32 c) x
      encodeOccurrences f w j (c + 1) xs

/-- `encode_field`. -/
def encodeField (f : Emitted) (j : Nat) (w : SeqWriter) (xs : List (Nat × α)) :
    EStateM ExiError Encoder SeqWriter :=
  if f.phantom then pure w
  else if f.max > 1 then
    let count := asU32 xs.length
    if f.min > 0 ∧ count < f.min ∨ f.max ≠ unbounded ∧ count > f.max then throw .valueOutOfRange
    else do
      encodeOccurrences C f w j 0 xs
      pure (if count > 0 then w.finish j count else w)
  else
    match xs with
    | [] => pure w
    | x :: _ => do
        encodeValue C f w j 0 x
        pure (w.finish j 1)

/-- The fields from `j` on. -/
def encodeFields : List Emitted → Nat → SeqWriter → List (List (Nat × α)) →
    EStateM ExiError Encoder SeqWriter
  | f :: fields, j, w, xs :: v => do
      let w ← encodeField C f j w xs
      encodeFields fields (j + 1) w v
  | _, _, w, _ => pure w

/-- `encode_body`. -/
def encodeBody (shape : Shape) (fields : List Emitted) (v : List (List (Nat × α))) :
    EStateM ExiError Encoder Unit := do
  Encoder.enter
  let w ← encodeFields C fields 0 (.new shape) v
  w.close
  Encoder.leave

/-! ## `decode_body`

A loop over what the reader lets through, with an arm for each field, and the checks of what is
missing once the loop has ended. -/

/-- `decode_kind`. -/
def decodeKind (kind : Kind) (isAttribute : Bool) (slot : Slot) : EStateM ExiError Decoder α :=
  match kind with
  | .struct => (C slot).read
  | .scalar =>
      if isAttribute then (C slot).read
      else do
        Decoder.expectEvent 0 simpleWidth
        let v ← (C slot).read
        Decoder.expectEvent 0 simpleWidth
        return v
  | .unsupported => throw .unsupportedOption

/-- The content of one occurrence. -/
def decodeContent (f : Emitted) (branch : Nat) : EStateM ExiError Decoder (Nat × α) :=
  match f.kind with
  | .single kind slot => do
      let v ← decodeKind C kind f.isAttribute slot
      return (0, v)
  | .choice variants =>
      match variants[branch]? with
      | some (kind, slot) => do
          let v ← decodeKind C kind false slot
          return (branch, v)
      | none => throw .unknownEventCode

/-- The arm of an occurrence. A phantom is refused, not skipped. -/
def decodeField (fields : List Emitted) (o : Occurrence) : EStateM ExiError Decoder (Nat × α) :=
  match fields[o.index]? with
  | none => throw .unknownEventCode
  | some f => if f.phantom then throw .unsupportedOption else decodeContent C f o.branch

/-- Where a value goes: into the `Vec`, or in place of the `Option`. -/
def store (fields : List Emitted) (acc : List (List (Nat × α))) (o : Occurrence) (x : Nat × α) :
    List (List (Nat × α)) :=
  match fields[o.index]? with
  | none => acc
  | some f => acc.modify o.index fun xs => if f.max > 1 then xs ++ [x] else [x]

/-- The loop of `decode_body`, in as many turns as the fuel allows. -/
def decodeLoop (fields : List Emitted) : Nat → SeqReader → List (List (Nat × α)) →
    EStateM ExiError Decoder (List (List (Nat × α)))
  | 0, _, _ => throw .unknownEventCode
  | n + 1, r, acc => do
      match ← r.next with
      | (.ended, _) => return acc
      | (.item o, r') =>
          let x ← decodeField C fields o
          decodeLoop fields n r' (store fields acc o x)

/-- No more turns than there are occurrences that a reader lets through, and one for the end. -/
def turns (shape : Shape) : Nat := (shape.max.map fun max => Nat.max max 1).sum + 1

/-- What `decode_body` asks of a field behind its loop. -/
def checkField (f : Emitted) (xs : List (Nat × α)) : EStateM ExiError Decoder Unit :=
  if f.phantom then pure ()
  else if f.max > 1 then
    if f.min > 0 ∧ asU32 xs.length < f.min then throw .missingElement else pure ()
  else if f.min > 0 ∧ xs = [] then throw .missingElement
  else pure ()

/-- What `decode_body` asks of its fields. -/
def checkFields : List Emitted → List (List (Nat × α)) → EStateM ExiError Decoder Unit
  | f :: fields, xs :: v => do
      checkField f xs
      checkFields fields v
  | _, _ => pure ()

/-- `decode_body`. -/
def decodeBody (shape : Shape) (fields : List Emitted) :
    EStateM ExiError Decoder (List (List (Nat × α))) := do
  Decoder.enter
  let v ← decodeLoop C fields (turns shape) (.new shape) (fields.map fun _ => [])
  Decoder.leave
  checkFields fields v
  return v

end Bodies

end Iso15118.Codegen
