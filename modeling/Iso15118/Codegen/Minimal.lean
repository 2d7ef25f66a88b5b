import Iso15118.Codegen.Scalar
import Mathlib.Logic.Relation

/-!
# Minimal values

Every generated type has a `minimal()`: the smallest value the schema permits, with everything
required at its own minimum and nothing else. A station that refuses a request answers with one, so
it is built to be encodable; but `minimal()` makes its values up without asking what the encoder of
their type checks.

**`minimal_encodes_iff`** says when the two agree: a minimal value is encoded, if there is room for
it, exactly when none of the scalars it is made of is a date or cannot have any length, and nothing
is required more often than it may occur.
-/

namespace Iso15118.Codegen

open Iso15118.Lib Iso15118.Exi

/-! ## Generated code

Structs of a crate and what names stand for in it. Values of all of them are of one type, as deep
as they are nested. -/

/-- `Kind`, with its scalar and the name of its struct. -/
inductive Content where
  | scalar (s : Scalar)
  | struct (name : String)
  | unsupported

def Content.kind : Content → Kind
  | scalar _ => .scalar
  | struct _ => .struct
  | unsupported => .unsupported

/-- A scalar, or what cannot be generated. -/
def Content.ofScalar : Option Scalar → Content
  | some s => .scalar s
  | none => .unsupported

/-- A struct, or what cannot be generated. -/
def Content.ofStruct : Option String → Content
  | some name => .struct name
  | none => .unsupported

namespace Emitter

variable (E : Emitter)

/-- `Emitter::kind`. -/
def kind (f : Field) : Content :=
  match f.typeRef, E.resolve f.typeRef with
  | .named q, some .complex =>
      if ¬ E.generated q ∨ ¬ E.reachable q then .unsupported
      else .ofStruct ((E.typeNames q).map fun rust => E.pathPrefix q ++ rust)
  | .anonymous i, some .complex => .ofStruct (E.anonymousRoots i)
  | typeRef, _ => .ofScalar (E.scalar typeRef (some f.name))

/-- What the content of a field is. Character data has no name of its own. -/
def content : Slot → Content
  | .field f => E.kind f
  | .text typeRef => .ofScalar (E.scalar typeRef none)

/-- What `field_of` asks of the emitter. -/
def resolver : Resolver where
  kind f := (E.content (.field f)).kind
  scalar typeRef := (E.scalar typeRef none).isSome

end Emitter

/-- The alternative `minimal()` takes: the first one of a choice. -/
def Emitted.first (f : Emitted) : Option Slot :=
  match f.kind with
  | .single _ slot => some slot
  | .choice variants => variants.head?.map Prod.snd

/-- A field that every value has. -/
def Emitted.Required (f : Emitted) : Prop := f.phantom = false ∧ 0 < f.min

/-- A generated struct: what has gone through the emitter, and compiles. -/
structure Generated where
  emitter : Emitter
  owner : String
  items : List Item
  contentStart : Nat
  mixed : Bool
  layout : Layout
  fields : List Emitted
  computed : Layout.compute items contentStart mixed = .ok layout
  emitted : items.mapM (fieldOf emitter.resolver owner) = .ok fields
  /-- the bounds are of `u32` -/
  bounds : ∀ item ∈ items, item.min ≤ unbounded
  /-- a choice of nothing has no `minimal()` -/
  inhabited : ∀ f ∈ fields, f.phantom = false → f.first ≠ none
  compiles : ∀ f ∈ fields, f.phantom = false → ∀ slot s, f.first = some slot →
    emitter.content slot = .scalar s → s.Compiles

/-- A value of a generated type. -/
inductive Value where
  | scalar (v : ScalarValue)
  | struct (fields : List (List (Nat × Value)))

def Value.asScalar : Value → Option ScalarValue
  | scalar v => some v
  | struct _ => none

def Value.asStruct : Value → Option (List (List (Nat × Value)))
  | scalar _ => none
  | struct fields => some fields

/-- What is read and written of values of one type, for the values of several. -/
def FieldCodec.into {α β : Type} (C : FieldCodec α) (wrap : α → β) (unwrap : β → Option α) :
    FieldCodec β where
  write v :=
    match unwrap v with
    | some a => C.write a
    -- the compiler lets no value of another type through
    | none => throw .unsupportedOption
  read := do
    let a ← C.read
    return wrap a
  Within v := ∃ a, unwrap v = some a ∧ C.Within a
  keeps := KeepsDepth.bind C.keeps fun a => KeepsDepth.pure (wrap a)

/-- What is refused. -/
def FieldCodec.refused (α : Type) (x : ExiError) : FieldCodec α where
  write _ := throw x
  read := throw x
  Within _ := False
  keeps := KeepsDepth.throw x

/-- The structs of a crate, and which of them a name stands for in the module of another. -/
structure Crate (ι : Type) where
  struct : ι → Generated
  named : ι → String → ι

namespace Crate

variable {ι : Type} (P : Crate ι)

/-- What the content of a field of struct `i` is. -/
def content (i : ι) (slot : Slot) : Content := (P.struct i).emitter.content slot

/-- Content of a field of struct `i`, where `inner` is for the structs in it. -/
def contentCodec (inner : ι → FieldCodec (List (List (Nat × Value)))) (i : ι) (slot : Slot) :
    FieldCodec Value :=
  match P.content i slot with
  | .scalar s => s.codec.into .scalar Value.asScalar
  | .struct name => (inner (P.named i name)).into .struct Value.asStruct
  | .unsupported => .refused Value .unsupportedOption

/-- `encode_body` and `decode_body` of struct `i`, with `n` structs within one another at most: that
many are entered before the encoder or the decoder refuses another. -/
def codecWithin : Nat → ι → FieldCodec (List (List (Nat × Value)))
  | 0, _ => .refused _ .depthLimitExceeded
  | n + 1, i => structCodec (P.contentCodec (codecWithin n) i) (P.struct i).items
      (P.struct i).layout.shape (P.struct i).fields

/-! ## `minimal()`

What generated code makes up: of a required field as many as it needs, each minimal, and of any
other nothing. -/

/-- `minimal_kind`. -/
def minimalKind (inner : ι → Option (List (List (Nat × Value)))) (i : ι) (slot : Slot) :
    Option Value :=
  match P.content i slot with
  | .scalar s => some (.scalar s.minimal)
  | .struct name => (inner (P.named i name)).map .struct
  | .unsupported => none

/-- `minimal_expr`, and nothing for a phantom. -/
def minimalExpr (inner : ι → Option (List (List (Nat × Value)))) (i : ι) (f : Emitted) :
    Option (List (Nat × Value)) :=
  if f.phantom then some []
  else
    -- the first variant of a choice
    let value := (f.first.bind (P.minimalKind inner i)).map fun v => (0, v)
    if f.max > 1 then
      if f.min = 0 then some [] else value.map fun x => List.replicate f.min x
    else if f.min = 0 then some [] else value.map fun x => [x]

/-- `minimal()` of struct `i`, with `n` structs within one another at most. -/
def minimalWithin : Nat → ι → Option (List (List (Nat × Value)))
  | 0, _ => none
  | n + 1, i => (P.struct i).fields.mapM (P.minimalExpr (minimalWithin n) i)

/-! ## What is required

A struct that requires itself has no minimal value. Otherwise it has one of finite depth, and
whether it is encoded depends on the scalars and the lists in it. -/

/-- A minimal value of struct `i` has one of struct `j` in it. -/
def Requires (i j : ι) : Prop :=
  ∃ f ∈ (P.struct i).fields, f.Required ∧ ∃ slot name, f.first = some slot
    ∧ P.content i slot = .struct name ∧ P.named i name = j

/-- Structs that require one another, `n` of them within one another at most. -/
def Nests : Nat → ι → Prop
  | 0, _ => False
  | n + 1, i => ∀ j, P.Requires i j → Nests n j

/-- A minimal value of struct `i` has no list longer than it may be, and no scalar that is not a
value. -/
def Filled (i : ι) : Prop :=
  ∀ f ∈ (P.struct i).fields, f.Required → (1 < f.max → f.min ≤ f.max)
    ∧ ∀ slot s, f.first = some slot → P.content i slot = .scalar s → s.Fillable

/-- The same of every struct in it. -/
def Fillable (i : ι) : Prop := ∀ j, Relation.ReflTransGen P.Requires i j → P.Filled j

variable {P}
variable {i j : ι}

theorem Fillable.filled (h : P.Fillable i) : P.Filled i := h i .refl

theorem Fillable.of_requires (h : P.Fillable i) (hij : P.Requires i j) : P.Fillable j :=
  fun k hk => h k (.head hij hk)

theorem fillable_of_all (hfilled : P.Filled i) (hall : ∀ j, P.Requires i j → P.Fillable j) :
    P.Fillable i := by
  intro k hk
  rcases hk.cases_head with rfl | ⟨j, hij, hjk⟩
  · exact hfilled
  · exact hall j hij k hjk

end Crate

/-! ## Fields of a generated struct

What has gone through the emitter has a kind that its content agrees with, and a first variant
for `minimal()` to take. -/

theorem kinds_of_variantsOf {E : Emitter} {branches : List Branch} {variants : List (Kind × Slot)}
    (h : variantsOf E.resolver branches = some variants) :
    ∀ v ∈ variants, v.1 = (E.content v.2).kind := by
  induction branches generalizing variants with
  | nil =>
    cases h
    exact fun v hv => by cases hv
  | cons branch branches ih =>
    cases branch with
    | wildcard => cases h
    | element f =>
      unfold variantsOf at h
      split at h
      · cases h
      · obtain ⟨rest, hrest, heq⟩ := Option.map_eq_some_iff.mp h
        subst heq
        exact List.forall_mem_cons.mpr ⟨rfl, ih hrest⟩

/-- Fields are of the kind their content is. -/
theorem kinds_of_fieldOf {E : Emitter} {owner : String} {item : Item} {f : Emitted}
    (h : fieldOf E.resolver owner item = .ok f) (hreal : f.phantom = false) :
    (∀ kind slot, f.kind = .single kind slot → kind = (E.content slot).kind)
      ∧ ∀ variants, f.kind = .choice variants → ∀ v ∈ variants, v.1 = (E.content v.2).kind := by
  have hslot : ∀ {isAttribute : Bool} {field : Field},
      fieldOfSlot E.resolver owner isAttribute field = .ok f →
      (∀ kind slot, f.kind = .single kind slot → kind = (E.content slot).kind)
        ∧ ∀ variants, f.kind = .choice variants →
          ∀ v ∈ variants, v.1 = (E.content v.2).kind := by
    intro isAttribute field h
    unfold fieldOfSlot at h
    dsimp only at h
    split at h
    · cases h
    · cases h
      refine ⟨fun kind slot heq => ?_, (fun variants heq => by cases heq)⟩
      cases heq
      rfl
  -- by the kind of item; what has no type of its own is a phantom or an error
  cases item with
  | «attribute» field => exact hslot h
  | element field => exact hslot h
  | characters typeRef =>
    rw [fieldOf] at h
    split at h
    · cases h
    · next hscalar =>
      cases h
      refine ⟨fun kind slot heq => ?_, (fun variants heq => by cases heq)⟩
      cases heq
      obtain ⟨s, hs⟩ := Option.isSome_iff_exists.mp (not_not.mp hscalar)
      show Kind.scalar = (Content.ofScalar (E.scalar typeRef none)).kind
      rw [hs]
      rfl
  | wildcard min max =>
    rw [fieldOf] at h
    split at h
    · cases h
    · cases h
      cases hreal
  | choice branches min max =>
    rw [fieldOf] at h
    split at h
    · next variants hvariants =>
      cases h
      refine ⟨(fun kind slot heq => by cases heq), fun variants' heq => ?_⟩
      cases heq
      exact kinds_of_variantsOf hvariants
    · split at h
      · cases h
      · cases h
        cases hreal

namespace Generated

variable {G : Generated} {f : Emitted}

theorem of_mem (hf : f ∈ G.fields) : ∃ item ∈ G.items, fieldOf G.emitter.resolver G.owner item
    = .ok f := by
  have hall := (mapM_eq_ok (f := fieldOf G.emitter.resolver G.owner)).mp G.emitted
  obtain ⟨j, hj, hget⟩ := List.getElem_of_mem hf
  obtain ⟨hlen, hget'⟩ := List.forall₂_iff_get.mp hall
  have hitem := hget' j (by omega) hj
  rw [← hget]
  exact ⟨_, List.get_mem _ _, hitem⟩

theorem min_le (hf : f ∈ G.fields) : f.min ≤ unbounded := by
  obtain ⟨item, hitem, hfield⟩ := of_mem hf
  rw [(of_fieldOf hfield).min]
  exact G.bounds item hitem

/-- What a field that is no phantom takes for its minimum is generated, and an occurrence of it is
written as its kind has it. -/
theorem exists_first (hf : f ∈ G.fields) (hreal : f.phantom = false) :
    ∃ slot, f.first = some slot ∧ G.emitter.content slot ≠ .unsupported
      ∧ ∃ isAttribute, ∀ {α : Type} (C : Slot → FieldCodec α) (v : α),
        encodeContent C f (0, v)
          = encodeKind C (G.emitter.content slot).kind isAttribute slot v := by
  obtain ⟨item, -, hfield⟩ := of_mem hf
  have hof := of_fieldOf hfield
  obtain ⟨hsingle, hchoice⟩ := kinds_of_fieldOf hfield hreal
  have hsome := G.inhabited f hf hreal
  have hsupported : ∀ {kind : Kind} {slot : Slot}, kind = (G.emitter.content slot).kind →
      kind ≠ .unsupported → G.emitter.content slot ≠ .unsupported := by
    intro kind slot heq hkind hcontent
    rw [heq, hcontent] at hkind
    exact hkind rfl
  unfold Emitted.first at hsome ⊢
  cases hkind : f.kind with
  -- one slot, which is the first
  | single kind slot =>
    have heq := hsingle kind slot hkind
    refine ⟨slot, rfl, hsupported heq (hof.single hreal kind slot hkind).2, f.isAttribute, ?_⟩
    intro α C v
    unfold encodeContent
    rw [hkind, ← heq]
  -- a choice, whose first variant is taken
  | choice variants =>
    rw [hkind] at hsome
    cases variants with
    | nil => exact absurd rfl hsome
    | cons variant variants =>
      obtain ⟨kind, slot⟩ := variant
      have heq := hchoice _ hkind _ List.mem_cons_self
      have hkind' := (hof.choice hreal _ hkind).2 _ List.mem_cons_self
      refine ⟨slot, rfl, hsupported heq hkind', false, ?_⟩
      intro α C v
      unfold encodeContent
      rw [hkind, ← heq]
      rfl

end Generated

/-! ## Success of a body

With enough room a body is written if its contents are. Fields that are not required write
nothing, and there are as many of the others as they need. -/

section Bodies

variable {α : Type} {C : Slot → FieldCodec α} {k : Nat} {f : Emitted} {w : SeqWriter} {j c : Nat}

theorem succeeds_of_carries {β : Type} {k' : Nat} {write : EStateM ExiError Encoder Unit}
    {read : EStateM ExiError Decoder β} {b : β} (h : Carries k k' write read b) :
    Succeeds k k' write () := by
  intro g hg
  obtain ⟨bits, g', hwrites, hg', -⟩ := h g hg
  exact ⟨g', bits.length, hg', .of_writes hwrites⟩

theorem succeeds_kind {kind : Kind} {isAttribute : Bool} {slot : Slot} {v : α}
    (h : Succeeds k k ((C slot).write v) ()) (hkind : kind ≠ .unsupported) :
    Succeeds k k (encodeKind C kind isAttribute slot v) () := by
  cases kind with
  | struct => exact h
  | scalar =>
    cases isAttribute with
    | true => exact h
    | false => exact (succeeds_event 0 _).bind (h.bind (succeeds_event 0 _))
  | unsupported => exact absurd rfl hkind

theorem succeeds_value {x : Nat × α} (h : Succeeds k k (encodeContent C f x) ()) :
    Succeeds k k (encodeValue C f w j c x) () := by
  unfold encodeValue
  cases hkind : f.kind with
  | single kind slot => exact (succeeds_event _ _).bind h
  | choice variants => exact (succeeds_event _ _).bind h

theorem succeeds_occurrences {xs : List (Nat × α)}
    (h : ∀ x ∈ xs, Succeeds k k (encodeContent C f x) ()) :
    Succeeds k k (encodeOccurrences C f w j c xs) () := by
  induction xs generalizing c with
  | nil => exact Succeeds.pure ()
  | cons x xs ih =>
    obtain ⟨hx, hxs⟩ := List.forall_mem_cons.mp h
    exact (succeeds_value hx).bind (ih hxs)

/-- Nothing is written of a field that is not required. -/
theorem succeeds_none (h : ¬ f.Required) : Succeeds k k (encodeField C f j w []) w := by
  unfold encodeField
  split
  · exact Succeeds.pure w
  · next hreal =>
    have hmin : f.min = 0 := by
      by_contra hmin
      exact h ⟨by simpa using hreal, Nat.pos_of_ne_zero hmin⟩
    split
    · have hcount : ¬ (f.min > 0 ∧ asU32 ([] : List (Nat × α)).length < f.min
          ∨ f.max ≠ unbounded ∧ asU32 ([] : List (Nat × α)).length > f.max) := by
        rintro (⟨hpos, -⟩ | ⟨-, hmany⟩)
        · omega
        · exact absurd hmany (Nat.not_lt_zero _)
      dsimp only
      rw [if_neg hcount]
      exact (Succeeds.pure ()).bind (Succeeds.pure w)
    · exact Succeeds.pure w

/-- The occurrences of a required field in a minimal value. -/
def fewest (f : Emitted) (x : Nat × α) : List (Nat × α) :=
  if f.max > 1 then List.replicate f.min x else [x]

/-- What there is of a required field is written unless it may not be there as often. -/
theorem encodeField_fewest (h : f.Required) (hle : f.min ≤ unbounded) (x : Nat × α) :
    encodeField C f j w (fewest f x)
      = (if 1 < f.max then
          if f.min ≤ f.max then do
            encodeOccurrences C f w j 0 (List.replicate f.min x)
            pure (w.finish j f.min)
          else throw .valueOutOfRange
        else do
          encodeValue C f w j 0 x
          pure (w.finish j 1)) := by
  obtain ⟨hreal, hmin⟩ := h
  unfold encodeField fewest
  rw [if_neg (by rw [hreal]; decide)]
  by_cases hmany : 1 < f.max
  · have hlen : asU32 (List.replicate f.min x).length = f.min := by
      rw [List.length_replicate]
      refine Nat.mod_eq_of_lt ?_
      unfold unbounded at hle
      omega
    rw [if_pos hmany, if_pos hmany, if_pos hmany]
    dsimp only
    rw [hlen]
    by_cases hmax : f.min ≤ f.max
    · rw [if_neg (by omega), if_pos hmax, if_pos hmin]
    · rw [if_pos (by unfold unbounded at hle ⊢; omega), if_neg hmax]
  · rw [if_neg hmany, if_neg hmany, if_neg hmany]

theorem succeeds_field (h : f.Required) (hle : f.min ≤ unbounded)
    (hmax : 1 < f.max → f.min ≤ f.max) {x : Nat × α}
    (hx : Succeeds k k (encodeContent C f x) ()) :
    ∃ w', Succeeds k k (encodeField C f j w (fewest f x)) w' := by
  rw [encodeField_fewest h hle x]
  by_cases hmany : 1 < f.max
  · rw [if_pos hmany, if_pos (hmax hmany)]
    have hall : ∀ y ∈ List.replicate f.min x, Succeeds k k (encodeContent C f y) () := by
      intro y hy
      rw [List.eq_of_mem_replicate hy]
      exact hx
    exact ⟨_, (succeeds_occurrences hall).bind (Succeeds.pure _)⟩
  · rw [if_neg hmany]
    exact ⟨_, (succeeds_value hx).bind (Succeeds.pure _)⟩

theorem succeeds_fields {fields : List Emitted} {v : List (List (Nat × α))}
    (h : List.Forall₂ (fun f xs => ∀ j w, ∃ w', Succeeds k k (encodeField C f j w xs) w') fields v)
    (j : Nat) (w : SeqWriter) : ∃ w', Succeeds k k (encodeFields C fields j w v) w' := by
  induction h generalizing j w with
  | nil => exact ⟨w, Succeeds.pure w⟩
  | cons hf _ ih =>
    obtain ⟨w₁, hfield⟩ := hf j w
    obtain ⟨w', hfields⟩ := ih (j + 1) w₁
    exact ⟨w', hfield.bind hfields⟩

/-- A body is written if its fields are, and it is not too deep. -/
theorem succeeds_body {shape : Shape} {fields : List Emitted} {v : List (List (Nat × α))}
    (hk : k < maxDepth) (h : List.Forall₂ (fun f xs => ∀ j w, ∃ w',
      Succeeds (k + 1) (k + 1) (encodeField C f j w xs) w') fields v) :
    Succeeds k k (encodeBody C shape fields v) () := by
  obtain ⟨w, hfields⟩ := succeeds_fields h 0 (.new shape)
  exact (succeeds_of_carries (carries_enter hk)).bind (hfields.bind
    ((succeeds_event _ _).bind (succeeds_of_carries carries_leave)))

/-! ## What a body that is written says

The converse: where a body was written, so was the content of each required field. -/

theorem content_of_value {x : Nat × α} {e e' : Encoder}
    (h : encodeValue C f w j c x e = .ok () e') :
    ∃ e₁ e₂, encodeContent C f x e₁ = .ok () e₂ := by
  unfold encodeValue at h
  cases hkind : f.kind with
  | single kind slot =>
    rw [hkind] at h
    obtain ⟨u, e₁, -, hcontent⟩ := bind_ok.mp h
    exact ⟨e₁, e', hcontent⟩
  | choice variants =>
    rw [hkind] at h
    obtain ⟨u, e₁, -, hcontent⟩ := bind_ok.mp h
    exact ⟨e₁, e', hcontent⟩

theorem write_of_kind {kind : Kind} {isAttribute : Bool} {slot : Slot} {v : α} {e e' : Encoder}
    (h : encodeKind C kind isAttribute slot v e = .ok () e') :
    ∃ e₁ e₂, (C slot).write v e₁ = .ok () e₂ := by
  cases kind with
  | struct => exact ⟨e, e', h⟩
  | scalar =>
    cases isAttribute with
    | true => exact ⟨e, e', h⟩
    | false =>
      obtain ⟨u, e₁, -, h⟩ := bind_ok.mp h
      obtain ⟨u', e₂, hwrite, -⟩ := bind_ok.mp h
      exact ⟨e₁, e₂, hwrite⟩
  | unsupported => cases h

/-- A required field that is written may occur as often as it must, and its content is written. -/
theorem content_of_field (h : f.Required) (hle : f.min ≤ unbounded) {x : Nat × α} {w' : SeqWriter}
    {e e' : Encoder} (hok : encodeField C f j w (fewest f x) e = .ok w' e') :
    (1 < f.max → f.min ≤ f.max) ∧ ∃ e₁ e₂, encodeContent C f x e₁ = .ok () e₂ := by
  rw [encodeField_fewest h hle x] at hok
  by_cases hmany : 1 < f.max
  · rw [if_pos hmany] at hok
    by_cases hmax : f.min ≤ f.max
    · rw [if_pos hmax] at hok
      obtain ⟨u, e₁, hoccurrences, -⟩ := bind_ok.mp hok
      -- there is a first one
      obtain ⟨n, hn⟩ := Nat.exists_eq_succ_of_ne_zero (Nat.pos_iff_ne_zero.mp h.2)
      rw [hn, List.replicate_succ] at hoccurrences
      obtain ⟨u', e₂, hvalue, -⟩ := bind_ok.mp hoccurrences
      exact ⟨fun _ => hmax, content_of_value hvalue⟩
    · rw [if_neg hmax] at hok
      cases hok
  · rw [if_neg hmany] at hok
    obtain ⟨u, e₁, hvalue, -⟩ := bind_ok.mp hok
    exact ⟨fun hmax => absurd hmax hmany, content_of_value hvalue⟩

/-- A body that was written has had each of its fields written, one after another. -/
theorem fields_of_body {shape : Shape} {fields : List Emitted} {v : List (List (Nat × α))}
    {e e' : Encoder} (hlen : fields.length = v.length)
    (h : encodeBody C shape fields v e = .ok () e') :
    List.Forall₂ (fun f xs => ∃ j w w' e₁ e₂, encodeField C f j w xs e₁ = .ok w' e₂) fields v := by
  have hfields : ∀ {fields : List Emitted} {v : List (List (Nat × α))} {j : Nat} {w w' : SeqWriter}
      {e e' : Encoder}, fields.length = v.length → encodeFields C fields j w v e = .ok w' e' →
      List.Forall₂ (fun f xs => ∃ j w w' e₁ e₂, encodeField C f j w xs e₁ = .ok w' e₂)
        fields v := by
    intro fields
    induction fields with
    | nil =>
      intro v j w w' e e' hlen _
      rw [List.length_eq_zero_iff.mp hlen.symm]
      exact .nil
    | cons f fields ih =>
      intro v j w w' e e' hlen h
      cases v with
      | nil => cases hlen
      | cons xs v =>
        obtain ⟨w₁, e₁, hfield, h⟩ := bind_ok.mp h
        exact .cons ⟨j, w, w₁, e, e₁, hfield⟩ (ih (Nat.succ.inj hlen) h)
  obtain ⟨u, e₁, -, h⟩ := bind_ok.mp h
  obtain ⟨w, e₂, h, -⟩ := bind_ok.mp h
  exact hfields hlen h

end Bodies

/-! ## Minimal values

Both directions by induction on how deep structs require one another. -/

/-- Scalar content is of some type. -/
theorem scalar_of_content {E : Emitter} {slot : Slot} {s : Scalar}
    (h : E.content slot = .scalar s) : ∃ typeRef owner, E.scalar typeRef owner = some s := by
  have hscalar : ∀ {found : Option Scalar}, Content.ofScalar found = .scalar s →
      found = some s := by
    intro found h
    cases found with
    | none => cases h
    | some s' =>
      cases h
      rfl
  have hstruct : ∀ {found : Option String}, Content.ofStruct found ≠ .scalar s := by
    intro found h
    cases found <;> cases h
  cases slot with
  | text typeRef => exact ⟨_, _, hscalar h⟩
  | field f =>
    have h : E.kind f = .scalar s := h
    unfold Emitter.kind at h
    split at h
    · split at h
      · cases h
      · exact absurd h hstruct
    · exact absurd h hstruct
    · exact ⟨_, _, hscalar h⟩

theorem sound_content {E : Emitter} {slot : Slot} {s : Scalar} (h : E.content slot = .scalar s) :
    s.Sound := by
  obtain ⟨typeRef, owner, hscalar⟩ := scalar_of_content h
  exact Emitter.sound_scalar hscalar

namespace Crate

variable {ι : Type} {P : Crate ι} {i j : ι} {f : Emitted} {slot : Slot}

section Inner

variable {inner : ι → Option (List (List (Nat × Value)))}

theorem minimalExpr_none (h : ¬ f.Required) : P.minimalExpr inner i f = some [] := by
  unfold minimalExpr
  by_cases hphantom : f.phantom = true
  · rw [if_pos hphantom]
  · have hmin : f.min = 0 := by
      by_contra hmin
      exact h ⟨by simpa using hphantom, Nat.pos_of_ne_zero hmin⟩
    rw [if_neg hphantom]
    dsimp only
    rw [if_pos hmin, if_pos hmin]
    exact ite_self _

theorem minimalExpr_required (h : f.Required) (hslot : f.first = some slot) :
    P.minimalExpr inner i f = (P.minimalKind inner i slot).map fun v => fewest f (0, v) := by
  obtain ⟨hreal, hmin⟩ := h
  unfold minimalExpr fewest
  rw [if_neg (by rw [hreal]; decide), hslot, Option.bind_some]
  dsimp only
  by_cases hmany : f.max > 1
  · rw [if_pos hmany, if_neg (Nat.pos_iff_ne_zero.mp hmin), Option.map_map]
    simp only [if_pos hmany]
    rfl
  · rw [if_neg hmany, if_neg (Nat.pos_iff_ne_zero.mp hmin), Option.map_map]
    simp only [if_neg hmany]
    rfl

theorem minimalKind_scalar {s : Scalar} (h : P.content i slot = .scalar s) :
    P.minimalKind inner i slot = some (.scalar s.minimal) := by
  unfold minimalKind
  rw [h]

theorem minimalKind_struct {name : String} (h : P.content i slot = .struct name) :
    P.minimalKind inner i slot = (inner (P.named i name)).map .struct := by
  unfold minimalKind
  rw [h]

end Inner

section Codec

variable {inner : ι → FieldCodec (List (List (Nat × Value)))}

theorem contentCodec_scalar {s : Scalar} (h : P.content i slot = .scalar s) :
    P.contentCodec inner i slot = s.codec.into .scalar Value.asScalar := by
  unfold contentCodec
  rw [h]

theorem contentCodec_struct {name : String} (h : P.content i slot = .struct name) :
    P.contentCodec inner i slot = (inner (P.named i name)).into .struct Value.asStruct := by
  unfold contentCodec
  rw [h]

end Codec

/-- **There is a minimal value** of whatever does not require itself. -/
theorem exists_minimal {n : Nat} (h : P.Nests n i) :
    ∃ v, ∀ m, n ≤ m → P.minimalWithin m i = some v := by
  induction n generalizing i with
  | zero => exact h.elim
  | succ n ih =>
    have hfields : ∀ f ∈ (P.struct i).fields,
        ∃ xs, ∀ m, n ≤ m → P.minimalExpr (P.minimalWithin m) i f = some xs := by
      intro f hf
      by_cases hrequired : f.Required
      · obtain ⟨slot, hslot, hsupported, -⟩ := Generated.exists_first hf hrequired.1
        cases hcontent : P.content i slot with
        | scalar s =>
          refine ⟨fewest f (0, .scalar s.minimal), fun m _ => ?_⟩
          rw [minimalExpr_required hrequired hslot, minimalKind_scalar hcontent, Option.map_some]
        | struct name =>
          obtain ⟨v, hv⟩ := ih (h _ ⟨f, hf, hrequired, slot, name, hslot, hcontent, rfl⟩)
          refine ⟨fewest f (0, .struct v), fun m hm => ?_⟩
          rw [minimalExpr_required hrequired hslot, minimalKind_struct hcontent, hv m hm,
            Option.map_some, Option.map_some]
        | unsupported => exact absurd hcontent hsupported
      · exact ⟨[], fun m _ => minimalExpr_none hrequired⟩
    obtain ⟨v, hv⟩ := exists_mapM hfields
    refine ⟨v, fun m hm => ?_⟩
    obtain ⟨m, rfl⟩ := Nat.exists_eq_succ_of_ne_zero (show m ≠ 0 by omega)
    exact hv m (by omega)

/-- A minimal value that is fillable is encoded, as deep as there is room for it. -/
theorem succeeds_minimal {n k fuel : Nat} {v : List (List (Nat × Value))}
    (hv : P.minimalWithin n i = some v) (hfill : P.Fillable i) (hk : k + n ≤ maxDepth)
    (hfuel : n ≤ fuel) : Succeeds k k ((P.codecWithin fuel i).write v) () := by
  -- induction on the levels the value has
  induction n generalizing i k fuel v with
  | zero => cases hv
  | succ n ih =>
    obtain ⟨fuel, rfl⟩ := Nat.exists_eq_succ_of_ne_zero (show fuel ≠ 0 by omega)
    have hall := (List.forall₂_and_left _ _).mpr ⟨fun f hf => hf, mapM_eq_some.mp hv⟩
    refine succeeds_body (by omega) (hall.imp fun f xs hboth j w => ?_)
    obtain ⟨hf, hxs⟩ := hboth
    -- a required field has the minimal value of its first slot
    by_cases hrequired : f.Required
    · obtain ⟨slot, hslot, hsupported, isAttribute, hwrite⟩ :=
        Generated.exists_first hf hrequired.1
      obtain ⟨hmax, hscalars⟩ := hfill.filled f hf hrequired
      rw [minimalExpr_required hrequired hslot] at hxs
      obtain ⟨value, hvalue, rfl⟩ := Option.map_eq_some_iff.mp hxs
      refine succeeds_field hrequired (Generated.min_le hf) hmax ?_
      rw [hwrite]
      refine succeeds_kind ?_ (fun heq => ?_)
      · cases hcontent : P.content i slot with
        | scalar s =>
          rw [minimalKind_scalar hcontent] at hvalue
          cases hvalue
          rw [contentCodec_scalar hcontent]
          have hcompiles := (P.struct i).compiles f hf hrequired.1 slot s hslot hcontent
          exact Scalar.succeeds_encode ((Scalar.checked_minimal_iff (sound_content hcontent)
            hcompiles).mpr (hscalars slot s hslot hcontent)) _
        | struct name =>
          rw [minimalKind_struct hcontent] at hvalue
          obtain ⟨v', hv', rfl⟩ := Option.map_eq_some_iff.mp hvalue
          rw [contentCodec_struct hcontent]
          have hrequires : P.Requires i (P.named i name) :=
            ⟨f, hf, hrequired, slot, name, hslot, hcontent, rfl⟩
          exact ih hv' (hfill.of_requires hrequires) (by omega) (by omega)
        | unsupported => exact absurd hcontent hsupported
      · cases hcontent : (P.struct i).emitter.content slot with
        | unsupported => exact hsupported hcontent
        | _ =>
          rw [hcontent] at heq
          cases heq
    -- any other field is left out
    · rw [minimalExpr_none hrequired] at hxs
      cases hxs
      exact ⟨w, succeeds_none hrequired⟩

/-- A minimal value that is encoded is fillable. -/
theorem fillable_of_write {n fuel : Nat} {v : List (List (Nat × Value))} {e e' : Encoder}
    (hv : P.minimalWithin n i = some v) (hok : (P.codecWithin fuel i).write v e = .ok () e') :
    P.Fillable i := by
  -- induction on the depth of the minimal value
  induction n generalizing i fuel v e e' with
  | zero => cases hv
  | succ n ih =>
    cases fuel with
    | zero => cases hok
    | succ fuel =>
      have hall := mapM_eq_some.mp hv
      have hfields := fields_of_body hall.length_eq hok
      -- every required field was written, and so was what is in it
      have hwritten : ∀ f ∈ (P.struct i).fields, f.Required → ∀ slot, f.first = some slot →
          (1 < f.max → f.min ≤ f.max) ∧ ∃ value, P.minimalKind (P.minimalWithin n) i slot
            = some value ∧ ∃ e₁ e₂,
              (P.contentCodec (P.codecWithin fuel) i slot).write value e₁ = .ok () e₂ := by
        intro f hf hrequired slot hslot
        obtain ⟨xs, hxs, j, w, w', e₁, e₂, hfield⟩ := exists_of_forall₂ hall hfields hf
        rw [minimalExpr_required hrequired hslot] at hxs
        obtain ⟨value, hvalue, rfl⟩ := Option.map_eq_some_iff.mp hxs
        obtain ⟨hmax, e₃, e₄, hcontent⟩ :=
          content_of_field hrequired (Generated.min_le hf) hfield
        obtain ⟨slot', hslot', -, isAttribute, hwrite⟩ := Generated.exists_first hf hrequired.1
        rw [hslot] at hslot'
        cases hslot'
        rw [hwrite] at hcontent
        exact ⟨hmax, value, hvalue, write_of_kind hcontent⟩
      refine fillable_of_all (fun f hf hrequired => ?_) ?_
      · obtain ⟨slot, hslot, -⟩ := Generated.exists_first hf hrequired.1
        obtain ⟨hmax, -⟩ := hwritten f hf hrequired slot hslot
        refine ⟨hmax, fun slot s hslot hcontent => ?_⟩
        obtain ⟨-, value, hvalue, e₁, e₂, hwrite⟩ := hwritten f hf hrequired slot hslot
        rw [minimalKind_scalar hcontent] at hvalue
        cases hvalue
        rw [contentCodec_scalar hcontent] at hwrite
        have hcompiles := (P.struct i).compiles f hf hrequired.1 slot s hslot hcontent
        exact (Scalar.checked_minimal_iff (sound_content hcontent) hcompiles).mp
          (Scalar.checked_of_encode hwrite)
      -- the type inside was written too, with one level less
      · rintro j ⟨f, hf, hrequired, slot, name, hslot, hcontent, rfl⟩
        obtain ⟨-, value, hvalue, e₁, e₂, hwrite⟩ := hwritten f hf hrequired slot hslot
        rw [minimalKind_struct hcontent] at hvalue
        obtain ⟨v', hv', rfl⟩ := Option.map_eq_some_iff.mp hvalue
        rw [contentCodec_struct hcontent] at hwrite
        exact ih hv' hwrite

variable (P)

/-- With enough room `encode_body` of struct `i` succeeds on the value, whatever strings the table
of the encoder holds and in either coding. -/
def Encodes (i : ι) (v : List (List (Nat × Value))) : Prop :=
  ∀ fuel, maxDepth ≤ fuel → ∀ f : Encoder.Context, f.depth = 0 → ∃ need, ∀ e : Encoder,
    Sink.frame e = f → need ≤ Sink.room e → ∃ e', (P.codecWithin fuel i).write v e = .ok () e'

variable {P}

theorem encodes_of_fillable {v : List (List (Nat × Value))}
    (hv : P.minimalWithin maxDepth i = some v) (h : P.Fillable i) : P.Encodes i v := by
  intro fuel hfuel f hf
  obtain ⟨f', need, -, haffords⟩ := succeeds_minimal hv h (Nat.le_of_eq (Nat.zero_add _)) hfuel f hf
  refine ⟨need, fun e he hroom => ?_⟩
  obtain ⟨e', hok, -⟩ := haffords e he hroom
  exact ⟨e', hok⟩

theorem fillable_of_encodes {v : List (List (Nat × Value))}
    (hv : P.minimalWithin maxDepth i = some v) (h : P.Encodes i v) : P.Fillable i := by
  obtain ⟨need, hneed⟩ := h maxDepth (Nat.le_refl _) ⟨.new, .literal, 0⟩ rfl
  -- a buffer of as many bytes as there are bits to be written
  obtain ⟨e', hok⟩ := hneed (.withValueCoding (List.replicate need 0) .literal) rfl (by
    show need ≤ 8 * (List.replicate need (0 : UInt8)).length - 0
    rw [List.length_replicate]
    omega)
  exact fillable_of_write hv hok

/-- **When minimal values encode**: of a struct that does not require itself and does not nest too
deep `minimal()` returns a value, and there is room enough in which `encode_body` writes it if and
only if what it has in it, down to its scalars, can be filled. -/
theorem minimal_encodes_iff {ι : Type} (P : Crate ι) {i : ι} (h : P.Nests maxDepth i) :
    ∃ v, (∀ n, maxDepth ≤ n → P.minimalWithin n i = some v) ∧ (P.Encodes i v ↔ P.Fillable i) := by
  obtain ⟨v, hv⟩ := exists_minimal h
  have hv₀ := hv maxDepth (Nat.le_refl _)
  exact ⟨v, hv, fillable_of_encodes hv₀, encodes_of_fillable hv₀⟩

/-- The emitter of a schema with a complex type `EntryType` and a simple type `SerialType` of eight
bytes. -/
def entryEmitter : Emitter where
  types q :=
    if q.localName = "EntryType" then some .complex
    else if q.localName = "SerialType" then
      some (.simple ⟨some ⟨"hexBinary", xsdNs⟩, [], none, none, some 8, some 8⟩)
    else none
  anonymous _ := none
  generated _ := true
  reachable _ := true
  pathPrefix _ := ""
  typeNames q := some q.localName
  anonymousRoots _ := none
  contexts _ := none

def serialField : Field := ⟨⟨"Serial", ""⟩, .named ⟨"SerialType", ""⟩, 1, 1⟩

def textField : Field := ⟨⟨"Text", ""⟩, .named ⟨"string", xsdNs⟩, 1, 1⟩

def whenField : Field := ⟨⟨"When", ""⟩, .named ⟨"dateTime", xsdNs⟩, 1, 1⟩

def entriesField : Field := ⟨⟨"Entry", ""⟩, .named ⟨"EntryType", ""⟩, 2, unbounded⟩

/-- A struct with a required serial number. -/
def entry : Generated where
  emitter := entryEmitter
  owner := "EntryType"
  items := [.element serialField]
  contentStart := 0
  mixed := false
  layout := Layout.ofItems [.element serialField] 0 false
  fields := [⟨.single .scalar (.field serialField), 1, 1, false, false⟩]
  computed := rfl
  emitted := rfl
  bounds := by decide
  inhabited := by decide
  compiles := by
    intro f hf _ slot s hslot hcontent
    cases List.mem_singleton.mp hf
    cases hslot
    cases hcontent
    exact trivial

/-- A struct with two entries or more, and a text or a date. -/
def entries : Generated where
  emitter := entryEmitter
  owner := "EntriesType"
  items := [.element entriesField, .choice [.element textField, .element whenField] 1 1]
  contentStart := 0
  mixed := false
  layout := Layout.ofItems
    [.element entriesField, .choice [.element textField, .element whenField] 1 1] 0 false
  fields := [⟨.single .struct (.field entriesField), 2, unbounded, false, false⟩,
    ⟨.choice [(.scalar, .field textField), (.scalar, .field whenField)], 1, 1, false, false⟩]
  computed := rfl
  emitted := rfl
  bounds := by decide
  inhabited := by decide
  compiles := by
    intro f hf _ slot s hslot hcontent
    rcases List.mem_pair.mp hf with rfl | rfl
    · cases hslot
      cases hcontent
    · cases hslot
      cases hcontent
      exact trivial

/-- A struct with a required date. -/
def dated : Generated where
  emitter := entryEmitter
  owner := "DatedType"
  items := [.element whenField]
  contentStart := 0
  mixed := false
  layout := Layout.ofItems [.element whenField] 0 false
  fields := [⟨.single .scalar (.field whenField), 1, 1, false, false⟩]
  computed := rfl
  emitted := rfl
  bounds := by decide
  inhabited := by decide
  compiles := by
    intro f hf _ slot s hslot hcontent
    cases List.mem_singleton.mp hf
    cases hslot
    cases hcontent
    exact trivial

/-- The entries, and one of them. -/
def entriesCrate : Crate Bool where
  struct one := if one then entry else entries
  named _ _ := true

theorem requires_entry {j : Bool} (h : entriesCrate.Requires true j) : False := by
  obtain ⟨f, hf, -, slot, name, hslot, hcontent, -⟩ := h
  cases List.mem_singleton.mp hf
  cases hslot
  cases hcontent

theorem filled_entry : entriesCrate.Filled true := by
  intro f hf _
  cases List.mem_singleton.mp hf
  refine ⟨(fun hmany => absurd hmany (by decide)), fun slot s hslot hcontent => ?_⟩
  cases hslot
  cases hcontent
  show (8 : Nat) ≤ 8
  exact Nat.le_refl 8

theorem filled_entries : entriesCrate.Filled false := by
  intro f hf _
  rcases List.mem_pair.mp hf with rfl | rfl
  · refine ⟨(fun _ => by decide), fun slot s hslot hcontent => ?_⟩
    cases hslot
    cases hcontent
  · refine ⟨(fun hmany => absurd hmany (by decide)), fun slot s hslot hcontent => ?_⟩
    cases hslot
    cases hcontent
    exact Nat.zero_le _

theorem fillable_entries : entriesCrate.Fillable false := by
  refine fillable_of_all filled_entries fun j hj => ?_
  have hj : j = true := by
    obtain ⟨f, -, -, slot, name, -, -, hnamed⟩ := hj
    exact hnamed.symm
  subst hj
  exact fillable_of_all filled_entry fun j hj => (requires_entry hj).elim

theorem nests_entries : entriesCrate.Nests maxDepth false := by
  show ∀ j, entriesCrate.Requires false j → entriesCrate.Nests (62 + 1) j
  rintro j ⟨f, -, -, slot, name, -, -, rfl⟩
  exact fun k hk => (requires_entry hk).elim

/-- Two serial numbers of zeros and an empty text. -/
theorem minimal_encodes_entries :
    ∃ v, (∀ n, maxDepth ≤ n → entriesCrate.minimalWithin n false = some v)
      ∧ entriesCrate.Encodes false v := by
  obtain ⟨v, hv, hiff⟩ := minimal_encodes_iff entriesCrate nests_entries
  exact ⟨v, hv, hiff.mpr fillable_entries⟩

/-- A crate with the struct of a date alone. -/
def datedCrate : Crate Unit where
  struct _ := dated
  named _ _ := ()

/-- The date that is made up has month zero, and is refused. -/
theorem dated_not_encoded :
    datedCrate.Nests maxDepth ()
      ∧ datedCrate.minimalWithin maxDepth () = some [[(0, .scalar (.dateTime dateTimeDefault))]]
      ∧ ¬ datedCrate.Encodes () [[(0, .scalar (.dateTime dateTimeDefault))]] := by
  have hminimal : datedCrate.minimalWithin maxDepth ()
      = some [[(0, .scalar (.dateTime dateTimeDefault))]] := rfl
  refine ⟨?_, hminimal, fun hencodes => ?_⟩
  · show ∀ j, datedCrate.Requires () j → datedCrate.Nests 63 j
    rintro j ⟨f, hf, -, slot, name, hslot, hcontent, -⟩
    cases List.mem_singleton.mp hf
    cases hslot
    cases hcontent
  · have hfilled := (fillable_of_encodes hminimal hencodes).filled _ List.mem_cons_self
      ⟨rfl, by decide⟩
    exact hfilled.2 _ _ rfl rfl

end Crate

end Iso15118.Codegen
