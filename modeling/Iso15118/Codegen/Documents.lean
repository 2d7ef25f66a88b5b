import Iso15118.Codegen.Crates
import Iso15118.Codegen.Elements
import Iso15118.Exi.Header

/-!
# Documents and fragments

The ends of a generated module: a message is a *document*, behind an event code of its own and the
header of every EXI stream, and what a signature is made over is a *fragment*, behind another code
and closed by a third. A receiver that has bytes and no name reads the code and decodes what it
stands for.

* **`SchemaModule.roundTrip`** — what is encoded of a document, or of a fragment, is decoded to it.
* **`SchemaModule.canonical`** — whatever bytes are decoded, the document they are decoded to is
  one the schema permits, and can be encoded and decoded again.
-/

namespace Iso15118.Codegen

open Iso15118.Lib Iso15118.Exi

/-! ## The roots of a module

A module has a document for each global element whose type is a struct of its own; elements of
types that live elsewhere are another module's. Both tables of codes count all elements, so the
codes have gaps. -/

/-- `rust_of`. -/
def Emitter.rustOf (E : Emitter) : TypeRef → Option String
  | .named q =>
      if E.generated q ∧ E.reachable q then (E.typeNames q).map fun rust => E.pathPrefix q ++ rust
      else none
  | .anonymous i => E.anonymousRoots i

/-- `rust.contains("::")`: a type that is in another module. -/
def qualified (rust : String) : Bool := [':', ':'] <:+: rust.toList

/-- A variant of the generated `Document`. -/
structure Root where
  code : Nat
  name : QName
  rust : String
  deriving DecidableEq

/-- A generated module, among the structs of a crate. -/
structure SchemaModule (ι : Type) where
  schema : SchemaSet
  emitter : Emitter
  crate : Crate ι
  struct : String → ι
  /-- `finish` has sorted the global elements by name, and left none of them twice -/
  distinct : (schema.globalElements.map GlobalElement.name).Nodup

/-- A `Document`: its variant, and the value in it. -/
structure Document where
  root : Root
  value : List (List (Nat × Value))

namespace SchemaModule

variable {ι : Type} (M : SchemaModule ι)

/-- `DOCUMENT_WIDTH`. -/
def documentWidth : Nat := bitWidth (M.schema.globalElements.length + 2)

/-- `FRAGMENT_WIDTH`. -/
def fragmentWidth : Nat := bitWidth (M.schema.declaredElementQnames.length + 3)

/-- `FRAGMENT_ED_CODE`. -/
def fragmentEdCode : Nat := M.schema.declaredElementQnames.length + 1

/-- The variant of a global element, if its type is one of this module. -/
def rootOf (element : GlobalElement) (code : Nat) : Option Root :=
  (M.emitter.rustOf element.typeRef).bind fun rust =>
    if qualified rust then none else some ⟨code, element.name, rust⟩

/-- `roots` of `documents`. -/
def roots : List Root :=
  M.schema.globalElements.zipIdx.filterMap fun entry => M.rootOf entry.1 entry.2

/-- `fragment_code`, where the element is in the table. -/
def fragmentCode (root : Root) : Option Nat := M.schema.declaredElementQnames.idxOf? root.name

/-- The codec of the struct a variant has. -/
def body (root : Root) : FieldCodec (List (List (Nat × Value))) :=
  M.crate.codecWithin maxDepth (M.struct root.rust)

/-! ## Encoding and decoding

The header, the code and the body; a fragment has a code at its end besides. The decoder looks
the code up among the roots and refuses one that is not there. -/

/-- `to_slice_with` of a `Document`, up to `finish`. -/
def writeDocument (doc : Document) : EStateM ExiError Encoder Unit := do
  Encoder.header .iso15118
  Encoder.event doc.root.code M.documentWidth
  (M.body doc.root).write doc.value

/-- `Document::to_slice_with`. -/
def toSliceWith (doc : Document) (buf : List UInt8) (coding : ValueCoding) :
    Except ExiError (List UInt8) :=
  encodeInto (M.writeDocument doc) buf coding

/-- What follows the code, with the variant it stands for. -/
def readBody (root : Option Root) : EStateM ExiError Decoder Document :=
  match root with
  | none => throw .unknownEventCode
  | some root => do
      let value ← (M.body root).read
      return ⟨root, value⟩

/-- `from_bytes` of a `Document`, up to `finish`. -/
def readDocument : EStateM ExiError Decoder Document := do
  let _ ← Decoder.header
  let code ← Decoder.event M.documentWidth
  M.readBody (M.roots.find? (·.code = code))

/-- `Document::from_bytes`. -/
def fromBytes (bytes : List UInt8) : Except ExiError Document := decodeFrom M.readDocument bytes

/-- `encode_fragment_with` of a `Document`, up to `finish`. -/
def writeFragment (doc : Document) : EStateM ExiError Encoder Unit :=
  match M.fragmentCode doc.root with
  -- the compiler lets no variant be without an arm
  | none => throw .unknownEventCode
  | some code => do
      Encoder.header .iso15118
      Encoder.event code M.fragmentWidth
      (M.body doc.root).write doc.value
      Encoder.event M.fragmentEdCode M.fragmentWidth

/-- `Document::encode_fragment_with`. -/
def encodeFragmentWith (doc : Document) (buf : List UInt8) (coding : ValueCoding) :
    Except ExiError (List UInt8) :=
  encodeInto (M.writeFragment doc) buf coding

/-- `from_fragment` of a `Document`, up to `finish`. -/
def readFragment : EStateM ExiError Decoder Document := do
  let _ ← Decoder.header
  let code ← Decoder.event M.fragmentWidth
  let doc ← M.readBody (M.roots.find? (M.fragmentCode · = some code))
  Decoder.expectEvent M.fragmentEdCode M.fragmentWidth
  return doc

/-- `Document::from_fragment`. -/
def fromFragment (bytes : List UInt8) : Except ExiError Document := decodeFrom M.readFragment bytes

/-! ## Codes

A code is the position of the element in its table, so no two roots share one, and it is below
the number that the width was computed from. -/

variable {M} {root : Root} {doc : Document}

/-- The roots are the global elements that have one, under their own codes. -/
theorem mem_roots : root ∈ M.roots ↔ ∃ element,
    M.schema.globalElements[root.code]? = some element
      ∧ M.rootOf element root.code = some root := by
  unfold roots
  rw [List.mem_filterMap]
  have hcode : ∀ {element : GlobalElement} {code : Nat}, M.rootOf element code = some root →
      code = root.code := by
    intro element code h
    obtain ⟨rust, -, h⟩ := Option.bind_eq_some_iff.mp h
    split at h
    · cases h
    · cases h
      rfl
  constructor
  · rintro ⟨⟨element, code⟩, hmem, h⟩
    have heq := hcode h
    subst heq
    exact ⟨element, List.mk_mem_zipIdx_iff_getElem?.mp hmem, h⟩
  · rintro ⟨element, hmem, h⟩
    exact ⟨(element, root.code), List.mk_mem_zipIdx_iff_getElem?.mpr hmem, h⟩

theorem name_of_rootOf {element : GlobalElement} {code : Nat}
    (h : M.rootOf element code = some root) : root.name = element.name := by
  obtain ⟨rust, -, h⟩ := Option.bind_eq_some_iff.mp h
  split at h
  · cases h
  · cases h
    rfl

/-- A code stands for one variant. -/
theorem eq_of_code {root' : Root} (h : root ∈ M.roots) (h' : root' ∈ M.roots)
    (hcode : root.code = root'.code) : root = root' := by
  obtain ⟨element, hget, hroot⟩ := mem_roots.mp h
  obtain ⟨element', hget', hroot'⟩ := mem_roots.mp h'
  rw [hcode, hget'] at hget
  cases hget
  rw [hcode, hroot'] at hroot
  exact (Option.some.inj hroot).symm

/-- So does a name. -/
theorem eq_of_name {root' : Root} (h : root ∈ M.roots) (h' : root' ∈ M.roots)
    (hname : root.name = root'.name) : root = root' := by
  refine eq_of_code h h' ?_
  obtain ⟨element, hget, hroot⟩ := mem_roots.mp h
  obtain ⟨element', hget', hroot'⟩ := mem_roots.mp h'
  rw [name_of_rootOf hroot, name_of_rootOf hroot'] at hname
  have hlt := (List.getElem?_eq_some_iff.mp hget).1
  apply (List.getElem?_inj (by simpa using hlt) M.distinct).mp
  simp [hget, hget', hname]

theorem find_code (h : root ∈ M.roots) : M.roots.find? (·.code = root.code) = some root := by
  cases hfind : M.roots.find? (·.code = root.code) with
  | none => simpa using List.find?_eq_none.mp hfind root h
  | some root' =>
    have hcode : root'.code = root.code := by simpa using List.find?_some hfind
    rw [eq_of_code (List.mem_of_find?_eq_some hfind) h hcode]

theorem find_fragmentCode {code : Nat} (h : root ∈ M.roots)
    (hcode : M.fragmentCode root = some code) :
    M.roots.find? (M.fragmentCode · = some code) = some root := by
  have hname : ∀ {root : Root}, M.fragmentCode root = some code →
      M.schema.declaredElementQnames[code]? = some root.name := by
    intro root h
    obtain ⟨hlt, heq, -⟩ := List.idxOf?_eq_some_iff.mp h
    rw [List.getElem?_eq_getElem hlt]
    simpa using heq
  cases hfind : M.roots.find? (M.fragmentCode · = some code) with
  | none => simpa [hcode] using List.find?_eq_none.mp hfind root h
  | some root' =>
    have hcode' : M.fragmentCode root' = some code := by simpa using List.find?_some hfind
    have hsame := (hname hcode').symm.trans (hname hcode)
    rw [eq_of_name (List.mem_of_find?_eq_some hfind) h (Option.some.inj hsame)]

theorem code_lt (h : root ∈ M.roots) : root.code < 2 ^ M.documentWidth := by
  obtain ⟨element, hget, -⟩ := mem_roots.mp h
  have hlt := (List.getElem?_eq_some_iff.mp hget).1
  exact lt_two_pow_bitWidth (by omega)

theorem fragmentCode_lt {code : Nat} (h : M.fragmentCode root = some code) :
    code < 2 ^ M.fragmentWidth := by
  obtain ⟨hlt, -⟩ := List.idxOf?_eq_some_iff.mp h
  exact lt_two_pow_bitWidth (by omega)

theorem fragmentEdCode_lt (M : SchemaModule ι) : M.fragmentEdCode < 2 ^ M.fragmentWidth :=
  lt_two_pow_bitWidth (by unfold fragmentEdCode; omega)

/-! ## Round trips

From bodies to documents: the code picks the root it was written for, and the body is carried.
What is decoded is valid, and so can be encoded. -/

variable (M)

/-- No struct of the crate forbids anything. -/
def Regular : Prop := ∀ i, (M.crate.struct i).Regular

/-- A value of the type `Document`. -/
structure Typed (doc : Document) : Prop where
  root : doc.root ∈ M.roots
  value : ∃ n, M.crate.TypedWithin n (M.struct doc.root.rust) doc.value

/-- A document the schema permits, no deeper than the codecs go. -/
structure Valid (doc : Document) : Prop where
  root : doc.root ∈ M.roots
  value : M.crate.ValidWithin maxDepth (M.struct doc.root.rust) doc.value

variable {M}

theorem Valid.carries_body (h : M.Valid doc) (hreg : M.Regular) :
    Carries 0 0 ((M.body doc.root).write doc.value) (M.readBody (some doc.root)) doc :=
  (Crate.carries_of_valid hreg h.value (by omega) (Nat.le_refl _)).2.map rfl

theorem Valid.carries_document (h : M.Valid doc) (hreg : M.Regular) :
    Carries 0 0 (M.writeDocument doc) M.readDocument doc := by
  refine carries_header.bind ((carries_event (code_lt h.root)).bind ?_)
  rw [find_code h.root]
  exact h.carries_body hreg

theorem Valid.carries_fragment (h : M.Valid doc) (hreg : M.Regular) {code : Nat}
    (hcode : M.fragmentCode doc.root = some code) :
    Carries 0 0 (M.writeFragment doc) M.readFragment doc := by
  have hwrite : M.writeFragment doc = (do
      Encoder.header .iso15118
      Encoder.event code M.fragmentWidth
      (M.body doc.root).write doc.value
      Encoder.event M.fragmentEdCode M.fragmentWidth) := by
    unfold writeFragment
    rw [hcode]
  rw [hwrite]
  refine carries_header.bind ((carries_event (fragmentCode_lt hcode)).bind ?_)
  rw [find_fragmentCode h.root hcode]
  exact (h.carries_body hreg).bind ((carries_expectEvent M.fragmentEdCode_lt).map rfl)

/-- What is written of its type is valid. -/
theorem Typed.valid (h : M.Typed doc) (hreg : M.Regular) {e e' : Encoder}
    (hwrite : (M.body doc.root).write doc.value e = .ok () e') : M.Valid doc := by
  obtain ⟨n, hn⟩ := h.value
  exact ⟨h.root, Crate.valid_of_write hreg hn hwrite⟩

/-- What is read behind a code is valid. -/
theorem valid_of_readBody (hreg : M.Regular) {pred : Root → Bool} {d d' : Decoder}
    (h : M.readBody (M.roots.find? pred) d = .ok doc d') :
    M.Valid doc ∧ pred doc.root = true := by
  unfold readBody at h
  cases hfind : M.roots.find? pred with
  | none =>
    rw [hfind] at h
    cases h
  | some root =>
    rw [hfind] at h
    obtain ⟨value, d₁, hread, hpure⟩ := bind_ok.mp h
    cases hpure
    exact ⟨⟨List.mem_of_find?_eq_some hfind, Crate.valid_of_read hreg hread⟩,
      List.find?_some hfind⟩

theorem write_of_encodeInto {write : EStateM ExiError Encoder Unit} {buf bytes : List UInt8}
    {coding : ValueCoding} (h : encodeInto write buf coding = .ok bytes) :
    ∃ e, write (.withValueCoding buf coding) = .ok () e := by
  unfold encodeInto at h
  split at h
  · next len e hok =>
    obtain ⟨u, e₁, hwrite, -⟩ := bind_ok.mp hok
    exact ⟨e₁, hwrite⟩
  · cases h

/-- What is carried and has been encoded is decoded. -/
theorem decode_of_encode {write : EStateM ExiError Encoder Unit}
    {read : EStateM ExiError Decoder Document} (hcarries : Carries 0 0 write read doc)
    {buf bytes : List UInt8} {coding : ValueCoding} (h : encodeInto write buf coding = .ok bytes) :
    decodeFrom read bytes = .ok doc := by
  obtain ⟨size, hsize⟩ := hcarries.document coding
  by_cases hroom : size ≤ 8 * buf.length
  · obtain ⟨bytes', hok, hdecode⟩ := (hsize buf).2 hroom
    dsimp only at hok
    rw [h] at hok
    cases hok
    exact hdecode
  · have hfull := (hsize buf).1 (by omega)
    dsimp only at hfull
    rw [h] at hfull
    cases hfull

theorem Typed.valid_of_document (h : M.Typed doc) (hreg : M.Regular) {buf bytes : List UInt8}
    {coding : ValueCoding} (hok : M.toSliceWith doc buf coding = .ok bytes) : M.Valid doc := by
  obtain ⟨e, hwrite⟩ := write_of_encodeInto hok
  obtain ⟨u, e₁, -, hwrite⟩ := bind_ok.mp hwrite
  obtain ⟨u', e₂, -, hbody⟩ := bind_ok.mp hwrite
  exact h.valid hreg hbody

theorem Typed.valid_of_fragment (h : M.Typed doc) (hreg : M.Regular) {buf bytes : List UInt8}
    {coding : ValueCoding} (hok : M.encodeFragmentWith doc buf coding = .ok bytes) :
    M.Valid doc ∧ ∃ code, M.fragmentCode doc.root = some code := by
  obtain ⟨e, hwrite⟩ := write_of_encodeInto hok
  unfold writeFragment at hwrite
  cases hcode : M.fragmentCode doc.root with
  | none =>
    rw [hcode] at hwrite
    cases hwrite
  | some code =>
    rw [hcode] at hwrite
    obtain ⟨u, e₁, -, hwrite⟩ := bind_ok.mp hwrite
    obtain ⟨u', e₂, -, hwrite⟩ := bind_ok.mp hwrite
    obtain ⟨u'', e₃, hbody, -⟩ := bind_ok.mp hwrite
    exact ⟨h.valid hreg hbody, code, rfl⟩

/-- **Round trip of generated code.** Whatever document is encoded, into whatever buffer and in
whichever coding, is decoded again from the bytes; and so it is of a fragment. -/
theorem roundTrip (M : SchemaModule ι) (hreg : M.Regular) (doc : Document) (htyped : M.Typed doc)
    (buf bytes : List UInt8) (coding : ValueCoding) :
    (M.toSliceWith doc buf coding = .ok bytes → M.fromBytes bytes = .ok doc)
      ∧ (M.encodeFragmentWith doc buf coding = .ok bytes → M.fromFragment bytes = .ok doc) := by
  refine ⟨fun h => ?_, fun h => ?_⟩
  · have hvalid := htyped.valid_of_document hreg h
    exact decode_of_encode (hvalid.carries_document hreg) h
  · obtain ⟨hvalid, code, hcode⟩ := htyped.valid_of_fragment hreg h
    exact decode_of_encode (hvalid.carries_fragment hreg hcode) h

/-- A module of the entries and of one of them. -/
def entryModule : SchemaModule Bool where
  schema :=
    { globalElements :=
        [⟨⟨"Entries", ""⟩, .named ⟨"EntriesType", ""⟩⟩, ⟨⟨"Entry", ""⟩, .named ⟨"EntryType", ""⟩⟩]
      types := .empty
      anonymous := [] }
  emitter := Crate.entryEmitter
  crate := Crate.entriesCrate
  struct rust := rust = "EntryType"
  distinct := by decide

theorem short_entryEmitter : Crate.entryEmitter.Short := by
  intro typeRef st m hresolve hmax
  cases typeRef with
  | anonymous i => cases hresolve
  | named q =>
    have hresolve : Crate.entryEmitter.types q = some (.simple st) := hresolve
    unfold Crate.entryEmitter at hresolve
    dsimp only at hresolve
    split at hresolve
    · cases hresolve
    · split at hresolve
      · cases hresolve
        cases hmax
        decide
      · cases hresolve

/-- Where nothing that repeats has several codes, whatever has a field has one. -/
theorem narrow_of_all {G : Generated}
    (h : ∀ item ∈ G.items, 1 < item.max → item.productions ≤ 1) (j : Nat) (item : Item)
    (f : Emitted) (hitem : G.items[j]? = some item) (_ : G.fields[j]? = some f)
    (_ : f.phantom = false) (hmax : 1 < item.max) : item.productions ≤ 1 :=
  h item (List.mem_of_getElem? hitem) hmax

theorem regular_entryModule : entryModule.Regular := by
  intro i
  cases i with
  | false =>
    exact ⟨by decide, by decide, by decide, narrow_of_all (by decide), short_entryEmitter⟩
  | true =>
    exact ⟨by decide, by decide, by decide, narrow_of_all (by decide), short_entryEmitter⟩

/-- `TransformType` of XML signatures: an algorithm, and any number of a choice that has no field,
for one branch of it is any element. -/
def transform : Generated where
  emitter := Crate.entryEmitter
  owner := "TransformType"
  items := [.attribute ⟨⟨"Algorithm", ""⟩, .named ⟨"anyURI", xsdNs⟩, 1, 1⟩,
    .choice [.wildcard, .element ⟨⟨"XPath", ""⟩, .named ⟨"string", xsdNs⟩, 1, 1⟩] 0 unbounded]
  contentStart := 1
  mixed := true
  layout := Layout.ofItems [.attribute ⟨⟨"Algorithm", ""⟩, .named ⟨"anyURI", xsdNs⟩, 1, 1⟩,
    .choice [.wildcard, .element ⟨⟨"XPath", ""⟩, .named ⟨"string", xsdNs⟩, 1, 1⟩] 0 unbounded]
    1 true
  fields := [⟨.single .scalar (.field ⟨⟨"Algorithm", ""⟩, .named ⟨"anyURI", xsdNs⟩, 1, 1⟩), 1, 1,
      true, false⟩,
    ⟨.single .unsupported (.text (.anonymous 0)), 0, unbounded, false, true⟩]
  computed := rfl
  emitted := rfl
  bounds := by decide
  inhabited := by decide
  compiles := by
    intro f hf hreal slot s hslot hcontent
    rcases List.mem_pair.mp hf with rfl | rfl
    · cases hslot
      cases hcontent
      exact trivial
    · cases hreal

/-- The widths are those of `Transform::SHAPE`. -/
example : transform.layout.shape.width = [1, 3, 2]
    ∧ transform.layout.shape.repeatWidth = [0, 3] := by decide

example : transform.Regular := by
  refine ⟨by decide, by decide, by decide, ?_, short_entryEmitter⟩
  rintro (_ | _ | j) item f hitem hf hreal hmax
  · cases hitem
    exact Nat.le_refl 1
  · cases hf
    cases hreal
  · cases hitem

/-- An entry with a serial number. -/
def entryDocument : Document where
  root := ⟨1, ⟨"Entry", ""⟩, "EntryType"⟩
  value := [[(0, .scalar (.binary [1, 2, 3, 4, 5, 6, 7, 8]))]]

theorem typed_entryDocument : entryModule.Typed entryDocument := by
  refine ⟨by decide +kernel, 1, .cons ⟨by simp [Emitted.Holdable], ?_⟩ .nil⟩
  intro x hx
  rw [List.mem_singleton.mp hx]
  exact ⟨.field Crate.serialField, rfl, .binary [1, 2, 3, 4, 5, 6, 7, 8], rfl, trivial⟩

theorem encoded_entryDocument :
    entryModule.toSliceWith entryDocument (List.replicate 11 0) .literal
        = .ok [128, 64, 128, 16, 32, 48, 64, 80, 96, 112, 128]
      ∧ entryModule.encodeFragmentWith entryDocument (List.replicate 12 0) .literal
        = .ok [128, 32, 64, 8, 16, 24, 32, 40, 48, 56, 64, 192] := by
  have hok : ∀ {result : Except ExiError (List UInt8)} {bytes : List UInt8},
      result.toOption = some bytes → result = .ok bytes := by
    intro result bytes h
    cases result <;> simp_all [Except.toOption]
  exact ⟨hok (by decide +kernel), hok (by decide +kernel)⟩

theorem roundTrip_entry :
    entryModule.fromBytes [128, 64, 128, 16, 32, 48, 64, 80, 96, 112, 128] = .ok entryDocument
      ∧ entryModule.fromFragment [128, 32, 64, 8, 16, 24, 32, 40, 48, 56, 64, 192]
        = .ok entryDocument :=
  ⟨(roundTrip entryModule regular_entryModule entryDocument typed_entryDocument _ _ _).1
      encoded_entryDocument.1,
    (roundTrip entryModule regular_entryModule entryDocument typed_entryDocument _ _ _).2
      encoded_entryDocument.2⟩

/-- **Generated decoders are strict.** What they accept, from whatever bytes, is a document the
schema permits; and wherever there is room it is encoded, in either coding, to bytes they accept as
the same document. -/
theorem canonical (M : SchemaModule ι) (hreg : M.Regular) (bytes : List UInt8) (doc : Document) :
    (M.fromBytes bytes = .ok doc → M.Valid doc
        ∧ ∀ coding, ReadBack (M.toSliceWith doc · coding) M.fromBytes doc)
      ∧ (M.fromFragment bytes = .ok doc → M.Valid doc
        ∧ ∀ coding, ReadBack (M.encodeFragmentWith doc · coding) M.fromFragment doc) := by
  refine ⟨fun h => ?_, fun h => ?_⟩
  · obtain ⟨d, hread⟩ := read_of_decodeFrom h
    obtain ⟨header, d₁, -, hread⟩ := bind_ok.mp hread
    obtain ⟨code, d₂, -, hread⟩ := bind_ok.mp hread
    obtain ⟨hvalid, -⟩ := valid_of_readBody hreg hread
    exact ⟨hvalid, fun coding => (hvalid.carries_document hreg).document coding⟩
  · obtain ⟨d, hread⟩ := read_of_decodeFrom h
    obtain ⟨header, d₁, -, hread⟩ := bind_ok.mp hread
    obtain ⟨code, d₂, -, hread⟩ := bind_ok.mp hread
    obtain ⟨doc', d₃, hbody, hread⟩ := bind_ok.mp hread
    obtain ⟨u, d₄, -, hpure⟩ := bind_ok.mp hread
    cases hpure
    obtain ⟨hvalid, hcode⟩ := valid_of_readBody hreg hbody
    exact ⟨hvalid, fun coding =>
      (hvalid.carries_fragment hreg (by simpa using hcode)).document coding⟩

theorem canonical_entry :
    entryModule.Valid entryDocument
      ∧ (∀ coding, ReadBack (entryModule.toSliceWith entryDocument · coding) entryModule.fromBytes
        entryDocument)
      ∧ ∀ coding, ReadBack (entryModule.encodeFragmentWith entryDocument · coding)
        entryModule.fromFragment entryDocument := by
  have hvalid := typed_entryDocument.valid_of_document regular_entryModule encoded_entryDocument.1
  have hdocument := decode_of_encode (hvalid.carries_document regular_entryModule)
    encoded_entryDocument.1
  obtain ⟨-, code, hcode⟩ :=
    typed_entryDocument.valid_of_fragment regular_entryModule encoded_entryDocument.2
  have hfragment := decode_of_encode (hvalid.carries_fragment regular_entryModule hcode)
    encoded_entryDocument.2
  exact ⟨((canonical entryModule regular_entryModule _ _).1 hdocument).1,
    ((canonical entryModule regular_entryModule _ _).1 hdocument).2,
    ((canonical entryModule regular_entryModule _ _).2 hfragment).2⟩

end SchemaModule

end Iso15118.Codegen
