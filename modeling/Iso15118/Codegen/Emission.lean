import Iso15118.Codegen.Generatable
import Iso15118.Lib.Naming

/-!
# The tables of the emitter

What `Emitter::new` finds out of a schema besides the types that can be structs: their names in
Rust, and the partition of the strings of each element and attribute. With these tables it writes
out one type after another.

* **`assignNames`**, **`Emission.contexts`** — no two types have the same name, and no two elements
  the same partition (**`tables_distinct`**);
* **`Emission.emitter`** — the emitter the tables make. **`generated_emits`** says that the types it
  takes for structs are never in the way of one another.
-/

namespace Iso15118.Codegen

open Lib Exi

/-! ## Names

A name is cut down, and if that is taken it is kept whole or numbered. The source asks a set
which names are taken; here it is a list. -/

/-- `trim_end_matches("Type")`, of a name read backwards. -/
def trimTypeReversed : List Char → List Char
  | 'e' :: 'p' :: 'y' :: 'T' :: rest => trimTypeReversed rest
  | rest => rest

/-- `trim_end_matches("Type")`. -/
def trimType (name : String) : String :=
  String.ofList (trimTypeReversed name.toList.reverse).reverse

/-- The name of a type, where `taken` are the names of others: what is left of it without `Type`,
else all of it, else a number behind the first. -/
def chooseName (toUppercase : Char → List Char) (taken : List String) (name : QName) : String :=
  let base := pascal toUppercase (trimType name.localName)
  let whole := pascal toUppercase name.localName
  if base ∉ taken then base
  else if whole ∉ taken then whole
  else firstFree (fun n => base ++ toString n) taken (taken.length + 1) 2

/-- A type that is an item in Rust. A simple type is one if its values are enumerated. -/
def TypeBody.isItem : TypeBody → Bool
  | .simple st => st.enumeration ≠ []
  | .complex _ => true

/-- The types that get a name, in the order in which they do. -/
def WholeSchema.itemTypes (W : WholeSchema) : List QName :=
  (W.types.entries.filter fun e => e.2.isItem).map Prod.fst

/-- `assign_names`. -/
def assignNames (toUppercase : Char → List Char) (W : WholeSchema) : List (QName × String) :=
  assign (chooseName toUppercase) [] W.itemTypes

/-! ## The emitter

The tables are made once, before anything is written out. What a field is of, and the number of
its strings' partition, is looked up in them. -/

/-- An `Emitter`, as `Emitter::new` leaves it. -/
structure Emission where
  toUppercase : Char → List Char
  schema : WholeSchema
  emitNamespaces : List String
  externModules : String → Option String
  tables : Generatable
  found : schema.findGeneratable toUppercase = some tables

/-- The names an item has in the schema. Character data shares those of the element around it. -/
def Item.names : Item → List QName
  | .attribute f | .element f => [f.name]
  | .choice branches _ _ => branches.filterMap fun b => b.field?.map Field.name
  | .characters _ | .wildcard _ _ => []

/-- What `TypeDef` says about the kind of a field. -/
def TypeBody.definition : TypeBody → Definition
  | .simple st => .simple st
  | .complex _ => .complex

namespace Emission

variable (em : Emission)

/-- `generated`. -/
def generated (name : QName) : Bool := name ∈ em.tables.generatable

/-- `local`. -/
def isLocal (name : QName) : Bool :=
  em.emitNamespaces.isEmpty || name.namespaceName ∈ em.emitNamespaces

/-- `reachable`. -/
def reachable (name : QName) : Bool :=
  em.isLocal name || (em.externModules name.namespaceName).isSome

/-- `prefix`. -/
def pathPrefix (name : QName) : String :=
  if em.isLocal name then ""
  else (em.externModules name.namespaceName).elim "" fun path => path ++ "::"

/-- `type_names`. -/
def typeNames (name : QName) : Option String :=
  SortedMap.lookup name (assignNames em.toUppercase em.schema)

/-- The elements and attributes of the types that are generated. -/
def declaredNames : List QName :=
  em.schema.complexTypes.flatMap fun e =>
    if em.generated e.1 then
      (Layout.of em.schema.schema e.2).toOption.elim [] fun layout =>
        layout.items.flatMap Item.names
    else []

/-- `names` of `assign_contexts`: each of them once, in order. -/
def contextNames : List QName :=
  (SortedMap.empty.insertAll (em.declaredNames.map fun name => (name, ()))).keys

/-- `contexts`, as `assign_contexts` fills it. -/
def contexts (name : QName) : Option ValueCtx :=
  (em.contextNames.idxOf? name).map fun i => ⟨UInt32.ofNat (min i 4294967295)⟩

/-- What of it decides the kind of a field. -/
def emitter : Emitter where
  types q := (em.schema.types.find? q).map TypeBody.definition
  anonymous i := (em.schema.anonymous[i]?).map TypeBody.definition
  generated := em.generated
  reachable := em.reachable
  pathPrefix := em.pathPrefix
  typeNames := em.typeNames
  anonymousRoots i := (anonymousRoot em.toUppercase em.schema i).map Prod.snd
  contexts := em.contexts

end Emission

/-! ## No name and no partition twice

A name is chosen among those that are free, and partitions are counted; so both tables are
injective, each by its own argument. -/

/-- A number is known by its digits. -/
theorem toString_injective : Function.Injective fun n : Nat => toString n := by
  intro n m heq
  have hdigits : Nat.toDigits 10 n = Nat.toDigits 10 m := by
    rw [← Nat.toList_repr, ← Nat.toList_repr]
    exact congrArg String.toList heq
  calc n = Nat.ofDigitChars 10 (Nat.toDigits 10 n) 0 := Nat.ofDigitChars_ten_toDigits.symm
    _ = Nat.ofDigitChars 10 (Nat.toDigits 10 m) 0 := by rw [hdigits]
    _ = m := Nat.ofDigitChars_ten_toDigits

theorem chooseName_free (toUppercase : Char → List Char) (taken : List String) (name : QName) :
    chooseName toUppercase taken name ∉ taken := by
  unfold chooseName
  dsimp only
  split
  · next hfree => exact hfree
  · split
    · next hfree => exact hfree
    · refine firstFree_not_mem (fun n m heq => ?_) (Nat.lt_succ_self _) 2
      exact toString_injective ((String.append_right_inj _).mp heq)

theorem WholeSchema.itemTypes_sorted (W : WholeSchema) : W.itemTypes.Pairwise (· < ·) :=
  List.pairwise_map.mpr (W.types.sorted.filter _)

theorem WholeSchema.mem_itemTypes {W : WholeSchema} {q : QName} :
    q ∈ W.itemTypes ↔ ∃ body, W.types.find? q = some body ∧ body.isItem = true := by
  simp [itemTypes, SortedMap.find?_eq_some]

section Names

variable {toUppercase : Char → List Char} {W : WholeSchema}

theorem lookup_assignNames {q : QName} {rust : String} :
    SortedMap.lookup q (assignNames toUppercase W) = some rust
      ↔ (q, rust) ∈ assignNames toUppercase W := by
  refine SortedMap.lookup_eq_some (List.pairwise_map.mp ?_)
  rw [assignNames, map_fst_assign]
  exact W.itemTypes_sorted

theorem eq_of_mem_assignNames {q q' : QName} {rust : String}
    (h : (q, rust) ∈ assignNames toUppercase W) (h' : (q', rust) ∈ assignNames toUppercase W) :
    q = q' := by
  have hnodup := (nodup_assign (chooseName_free toUppercase) [] W.itemTypes).1
  exact congrArg Prod.fst (List.inj_on_of_nodup_map hnodup h h' rfl)

end Names

namespace Emission

variable {em : Emission} {q q' : QName}

/-- A type has a name if it is an item in Rust. -/
theorem isSome_typeNames :
    (em.typeNames q).isSome ↔ ∃ body, em.schema.types.find? q = some body ∧ body.isItem = true := by
  have hkeys : (assignNames em.toUppercase em.schema).map Prod.fst = em.schema.itemTypes :=
    map_fst_assign [] em.schema.itemTypes
  rw [Option.isSome_iff_exists, ← WholeSchema.mem_itemTypes, ← hkeys]
  simp only [typeNames, lookup_assignNames, List.mem_map, Prod.exists, exists_and_right,
    exists_eq_right]

theorem mem_contextNames : q ∈ em.contextNames ↔ q ∈ em.declaredNames := by
  rw [contextNames, SortedMap.mem_keys, ← Option.isSome_iff_exists,
    SortedMap.isSome_find?_insertAll]
  constructor
  · rintro (hempty | ⟨u, hin⟩)
    · cases hempty
    · obtain ⟨name, hname, heq⟩ := List.mem_map.mp hin
      cases heq
      exact hname
  · exact fun hin => .inr ⟨(), List.mem_map.mpr ⟨q, hin, rfl⟩⟩

theorem contextNames_nodup : em.contextNames.Nodup :=
  (SortedMap.keys_sorted _).imp fun hlt => ne_of_lt hlt

/-- The position of a name, where none is there twice. -/
theorem idxOf?_eq_some_iff_of_nodup {l : List QName} (h : l.Nodup) {i : Nat} :
    l.idxOf? q = some i ↔ l[i]? = some q := by
  rw [List.idxOf?_eq_some_iff, List.getElem?_eq_some_iff]
  constructor
  · intro ⟨hlt, heq, _⟩
    exact ⟨hlt, heq⟩
  · intro ⟨hlt, heq⟩
    refine ⟨hlt, heq, fun j hj hsame => ?_⟩
    exact absurd ((h.getElem_inj_iff).mp (hsame.trans heq.symm)) (Nat.ne_of_lt hj)

/-- Partitions are counted up, from the first name on. -/
theorem contexts_eq_some (hfew : em.contextNames.length ≤ 4294967296) {ctx : ValueCtx} :
    em.contexts q = some ctx ↔ em.contextNames[ctx.id.toNat]? = some q := by
  have hid : ∀ {i}, i < em.contextNames.length → min i 4294967295 = i := fun hi => by omega
  rw [contexts, Option.map_eq_some_iff]
  simp only [idxOf?_eq_some_iff_of_nodup contextNames_nodup]
  constructor
  · rintro ⟨i, hi, rfl⟩
    have hlt := (List.getElem?_eq_some_iff.mp hi).1
    have hsmall : i < 2 ^ 32 := hlt.trans_le hfew
    rw [hid hlt, UInt32.toNat_ofNat_of_lt' hsmall]
    exact hi
  · intro h
    refine ⟨_, h, ?_⟩
    rw [hid (List.getElem?_eq_some_iff.mp h).1, UInt32.ofNat_toNat]

/-- No two types have the same name in Rust, and no two elements or attributes the same partition:
those of the types generated have one each, from zero on. -/
theorem tables_distinct (em : Emission) (hfew : em.contextNames.length ≤ 4294967296) :
    (∀ q, (em.typeNames q).isSome
        ↔ ∃ body, em.schema.types.find? q = some body ∧ body.isItem = true)
      ∧ (∀ q q' rust, em.typeNames q = some rust → em.typeNames q' = some rust → q = q')
      ∧ (∀ name, (em.contexts name).isSome ↔ name ∈ em.declaredNames)
      ∧ (∀ name name' ctx, em.contexts name = some ctx → em.contexts name' = some ctx →
          name = name')
      ∧ ∀ i < em.contextNames.length, ∃ name, em.contexts name = some ⟨UInt32.ofNat i⟩ := by
  refine ⟨fun q => isSome_typeNames, fun q q' rust h h' => ?_, fun name => ?_,
    fun name name' ctx h h' => ?_, fun i hi => ⟨em.contextNames[i], ?_⟩⟩
  · exact eq_of_mem_assignNames (lookup_assignNames.mp h) (lookup_assignNames.mp h')
  · rw [contexts, Option.isSome_map, List.isSome_idxOf?, mem_contextNames]
  · have hat := (contexts_eq_some hfew).mp h
    exact Option.some_injective _ (hat.symm.trans ((contexts_eq_some hfew).mp h'))
  · have hsmall : i < 2 ^ 32 := hi.trans_le hfew
    rw [contexts_eq_some hfew, UInt32.toNat_ofNat_of_lt' hsmall]
    exact List.getElem?_eq_getElem hi

end Emission

/-! ## What is taken for a struct can be written out

A type is kept if it has what it needs. What a required field needs is then either a scalar or
kept as well, so resolving it succeeds. -/

section Emits

variable {em : Emission}

/-- What simple types have to be for an item to be written out: scalars, where the item is required.
An optional branch of a required choice is not held to be a reason to leave out the type. -/
structure Item.Renders (em : Emission) (item : Item) : Prop where
  scalar : 0 < item.min → ∀ f ∈ item.fields, em.schema.complexOf f.typeRef = none →
    (em.emitter.scalar f.typeRef (some f.name)).isSome = true
  text : ∀ typeRef, item = .characters typeRef → (em.emitter.scalar typeRef none).isSome = true
  branch : ∀ branches min max, item = .choice branches min max → ∀ f ∈ item.fields, 0 < f.min

namespace Emission

theorem resolve_emitter (typeRef : TypeRef) :
    em.emitter.resolve typeRef = (em.schema.resolve typeRef).map TypeBody.definition := by
  cases typeRef <;> rfl

theorem resolve_of_complex {typeRef : TypeRef}
    (h : (em.schema.complexOf typeRef).isSome = true) :
    em.emitter.resolve typeRef = some .complex := by
  rw [resolve_emitter]
  unfold WholeSchema.complexOf at h
  cases hbody : em.schema.resolve typeRef with
  | none => rw [hbody] at h; cases h
  | some body =>
    cases body with
    | simple st => rw [hbody] at h; cases h
    | complex ct => rfl

theorem resolve_of_not_complex {typeRef : TypeRef} (h : em.schema.complexOf typeRef = none) :
    em.emitter.resolve typeRef ≠ some .complex := by
  rw [resolve_emitter]
  unfold WholeSchema.complexOf at h
  cases hbody : em.schema.resolve typeRef with
  | none =>
    intro heq
    cases heq
  | some body =>
    cases body with
    | simple st =>
      intro heq
      cases heq
    | complex ct => rw [hbody] at h; cases h

/-- A field whose type is a scalar. -/
theorem kind_scalar {f : Field} (hsimple : em.schema.complexOf f.typeRef = none)
    (hscalar : (em.emitter.scalar f.typeRef (some f.name)).isSome = true) :
    (em.emitter.kind f).kind ≠ .unsupported := by
  have hresolve := resolve_of_not_complex hsimple
  obtain ⟨s, hs⟩ := Option.isSome_iff_exists.mp hscalar
  have hkind : em.emitter.kind f = .ofScalar (em.emitter.scalar f.typeRef (some f.name)) := by
    unfold Emitter.kind
    split
    · next heq => exact absurd heq hresolve
    · next heq => exact absurd heq hresolve
    · rfl
  rw [hkind, hs]
  intro heq
  cases heq

/-- A field whose type is a struct of its own. -/
theorem kind_struct {q : QName} {f : Field} (hf : f.typeRef = .named q)
    (hgenerated : em.generated q = true) (hreach : em.reachable q = true)
    (hcomplex : (em.schema.complexOf (.named q)).isSome = true) :
    (em.emitter.kind f).kind ≠ .unsupported := by
  obtain ⟨ct, hct⟩ := Option.isSome_iff_exists.mp hcomplex
  have hnamed : (em.typeNames q).isSome := isSome_typeNames.mpr
    ⟨.complex ct, WholeSchema.complexOf_named.mp hct, rfl⟩
  obtain ⟨rust, hrust⟩ := Option.isSome_iff_exists.mp hnamed
  have hkind : em.emitter.kind f = .struct (em.pathPrefix q ++ rust) := by
    unfold Emitter.kind
    rw [hf, resolve_of_complex hcomplex]
    refine (if_neg ?_).trans ?_
    · exact fun h => h.elim (· hgenerated) (· hreach)
    · show Content.ofStruct ((em.typeNames q).map _) = _
      rw [hrust]
      rfl
  rw [hkind]
  intro heq
  cases heq

/-- A field with an inline type that a global element names. -/
theorem kind_root {f : Field} (hf : f.nameless em.toUppercase em.schema = false) {i : Nat}
    (hi : f.typeRef = .anonymous i) (hcomplex : (em.schema.complexOf f.typeRef).isSome = true) :
    (em.emitter.kind f).kind ≠ .unsupported := by
  unfold Field.nameless at hf
  rw [hi] at hf hcomplex
  rw [hcomplex] at hf
  dsimp only at hf
  rw [Bool.true_and] at hf
  obtain ⟨root, hroot⟩ := Option.isSome_iff_exists.mp (Option.isNone_eq_false_iff.mp hf)
  have hkind : em.emitter.kind f = .struct root.2 := by
    unfold Emitter.kind
    rw [hi, resolve_of_complex hcomplex]
    show Content.ofStruct ((anonymousRoot em.toUppercase em.schema i).map Prod.snd) = _
    rw [hroot]
    rfl
  rw [hkind]
  intro heq
  cases heq

/-- A field of a type that is generated, in an item that the type requires. -/
theorem kind_of_generated {q : QName} {ct : ComplexType} {layout : Layout} {item : Item} {f : Field}
    (hq : q ∈ em.tables.generatable) (hct : em.schema.complexOf (.named q) = some ct)
    (hlayout : Layout.of em.schema.schema ct = .ok layout)
    (hreach : ∀ q ∈ em.tables.generatable, em.reachable q = true) (hitem : item ∈ layout.items)
    (hf : f ∈ item.fields) (hmin : 0 < f.min)
    (hscalar : em.schema.complexOf f.typeRef = none →
      (em.emitter.scalar f.typeRef (some f.name)).isSome = true) :
    (em.emitter.kind f).kind ≠ .unsupported := by
  obtain ⟨hexpressible, hclosed⟩ := WholeSchema.closed_generatable em.found hq
  cases hcomplex : em.schema.complexOf f.typeRef with
  | none => exact kind_scalar hcomplex (hscalar hcomplex)
  | some inner =>
    have hsome : (em.schema.complexOf f.typeRef).isSome = true := by rw [hcomplex]; rfl
    cases href : f.typeRef with
    | named child =>
      rw [href] at hsome
      have hneeded : f.needed em.schema = some child := by
        unfold Field.needed
        rw [href]
        exact if_pos ⟨hmin, hsome⟩
      have hchild := hclosed child ⟨ct, layout, hct, hlayout, item, hitem, f, hf, hneeded⟩
      exact kind_struct href (decide_eq_true hchild) (hreach child hchild) hsome
    | anonymous i =>
      obtain ⟨ct', layout', hct', hlayout', -, hplain⟩ := hexpressible
      cases hct.symm.trans hct'
      cases hlayout.symm.trans hlayout'
      exact kind_root ((hplain item hitem).2 f hf) href hsome

theorem variantsOf_isSome {res : Resolver} {branches : List Branch}
    (h : ∀ b ∈ branches, ∃ f, b = .element f ∧ res.kind f ≠ .unsupported) :
    (variantsOf res branches).isSome = true := by
  induction branches with
  | nil => rfl
  | cons b branches ih =>
    obtain ⟨⟨f, rfl, hkind⟩, hrest⟩ := List.forall_mem_cons.mp h
    rw [variantsOf, if_neg hkind, Option.isSome_map]
    exact ih hrest

theorem mapM_ok {α β ε : Type} {f : α → Except ε β} {l : List α} (h : ∀ a ∈ l, ∃ b, f a = .ok b) :
    ∃ bs, l.mapM f = .ok bs := by
  induction l with
  | nil => exact ⟨[], rfl⟩
  | cons a l ih =>
    obtain ⟨⟨b, hb⟩, hrest⟩ := List.forall_mem_cons.mp h
    obtain ⟨bs, hbs⟩ := ih hrest
    exact ⟨b :: bs, by rw [List.mapM_cons, hb, hbs]; rfl⟩

/-- An item of a type that is generated can be written out. -/
theorem fieldOf_of_generated {q : QName} {ct : ComplexType} {layout : Layout} {item : Item}
    (hq : q ∈ em.tables.generatable) (hct : em.schema.complexOf (.named q) = some ct)
    (hlayout : Layout.of em.schema.schema ct = .ok layout)
    (hreach : ∀ q ∈ em.tables.generatable, em.reachable q = true) (hitem : item ∈ layout.items)
    (h : item.Renders em) (owner : String) :
    ∃ f, fieldOf em.emitter.resolver owner item = .ok f := by
  obtain ⟨⟨ct', layout', hct', hlayout', -, hplain⟩, -⟩ :=
    WholeSchema.closed_generatable em.found hq
  cases hct.symm.trans hct'
  cases hlayout.symm.trans hlayout'
  -- what a required item is made of has a type the resolver knows
  have hkind : ∀ f ∈ item.fields, 0 < f.min → 0 < item.min →
      em.emitter.resolver.kind f ≠ .unsupported := fun f hf hmin hrequired =>
    kind_of_generated hq hct hlayout hreach hitem hf hmin (h.scalar hrequired f hf)
  have hslot : ∀ isAttribute f, item.fields = [f] → item.min = f.min →
      ∃ e, fieldOfSlot em.emitter.resolver owner isAttribute f = .ok e := by
    intro isAttribute f hfields hmin
    refine ⟨_, if_neg ?_⟩
    intro ⟨hphantom, hrequired⟩
    exact hkind f (hfields ▸ List.mem_singleton.mpr rfl) hrequired (hmin ▸ hrequired) hphantom
  cases item with
  | «attribute» f => exact hslot true f rfl rfl
  | element f => exact hslot false f rfl rfl
  | characters typeRef => exact ⟨_, if_neg fun hnot => hnot (h.text typeRef rfl)⟩
  | wildcard min max =>
    refine ⟨_, if_neg fun hrequired => (hplain _ hitem).1 ⟨hrequired, rfl⟩⟩
  -- a required choice has a variant for every branch
  | choice branches min max =>
    by_cases hrequired : 0 < min
    · have htyped : ∀ b ∈ branches, ∃ f, b = .element f
          ∧ em.emitter.resolver.kind f ≠ .unsupported := by
        intro b hb
        cases b with
        | wildcard =>
          exact absurd ⟨hrequired, List.any_eq_true.mpr ⟨_, hb, rfl⟩⟩ (hplain _ hitem).1
        | element f =>
          have hf : f ∈ (Item.choice branches min max).fields := by
            rw [Item.fields, if_pos hrequired]
            exact List.mem_filterMap.mpr ⟨_, hb, rfl⟩
          exact ⟨f, rfl, hkind f hf (h.branch branches min max rfl f hf) hrequired⟩
      obtain ⟨variants, hvariants⟩ := Option.isSome_iff_exists.mp (variantsOf_isSome htyped)
      exact ⟨_, by rw [fieldOf, hvariants]⟩
    · rw [fieldOf]
      cases variantsOf em.emitter.resolver branches with
      | some variants => exact ⟨_, rfl⟩
      | none => exact ⟨_, if_neg hrequired⟩

/-- Of a type that is generated every item is written out, if its simple types are scalars and every
module that a type is in is known: no type that it needs is ever in the way. -/
theorem generated_emits {q : QName} {ct : ComplexType} {layout : Layout}
    (hq : q ∈ em.tables.generatable) (hct : em.schema.complexOf (.named q) = some ct)
    (hlayout : Layout.of em.schema.schema ct = .ok layout)
    (hreach : ∀ q ∈ em.tables.generatable, em.reachable q = true)
    (hitems : ∀ item ∈ layout.items, item.Renders em) (owner : String) :
    ∃ fields, layout.items.mapM (fieldOf em.emitter.resolver owner) = .ok fields :=
  mapM_ok fun item hitem =>
    fieldOf_of_generated hq hct hlayout hreach hitem (hitems item hitem) owner

end Emission

end Emits

/-- What is found out of the meter and its plan. -/
def meterTables : Generatable :=
  (meterSchema.findGeneratable upperAscii).getD ⟨[], .empty⟩

theorem found_meterTables : meterSchema.findGeneratable upperAscii = some meterTables := by
  have hsome : (meterSchema.findGeneratable upperAscii).isSome = true := by decide +kernel
  obtain ⟨G, hG⟩ := Option.isSome_iff_exists.mp hsome
  rw [meterTables, hG]
  rfl

/-- The emitter of a module for all of it. -/
def meterEmission : Emission where
  toUppercase := upperAscii
  schema := meterSchema
  emitNamespaces := []
  externModules _ := none
  tables := meterTables
  found := found_meterTables

/-- A meter, a plan and a sum have a partition each; the first two are different. -/
theorem tables_distinct_meter : ∃ name name', meterEmission.contexts name = some ⟨0⟩
    ∧ meterEmission.contexts name' = some ⟨1⟩ ∧ name ≠ name'
    ∧ (meterEmission.typeNames ⟨"MeterType", ""⟩).isSome = true := by
  have hlen : meterEmission.contextNames.length = 3 := by decide +kernel
  have hfew : meterEmission.contextNames.length ≤ 4294967296 := by omega
  obtain ⟨hnamed, -, -, -, hall⟩ := Emission.tables_distinct meterEmission hfew
  obtain ⟨name, hname⟩ := hall 0 (by omega)
  obtain ⟨name', hname'⟩ := hall 1 (by omega)
  refine ⟨name, name', hname, hname', fun heq => ?_, (hnamed _).mpr ⟨_, rfl, rfl⟩⟩
  rw [heq, hname'] at hname
  cases hname

/-- A site is written out, with the meter and the sum it needs: the one is generated, and the other
is a scalar. -/
theorem generated_emits_site : ∃ layout fields,
    Layout.of meterSchema.schema
        ⟨none, .none, some (.sequence
          [elementOf "Meter" "MeterType" 1, elementOf "Sum" "ValueType" 1] 1 1), [], false, none⟩
        = .ok layout
      ∧ layout.items.mapM (fieldOf meterEmission.emitter.resolver "Site") = .ok fields := by
  have hin : (⟨"SiteType", ""⟩ : QName) ∈ meterEmission.tables.generatable := by decide +kernel
  refine ⟨_, _, rfl, (Emission.generated_emits hin rfl rfl ?_ ?_ "Site").choose_spec⟩
  · exact fun q _ => rfl
  · intro item hitem
    rcases List.mem_pair.mp hitem with rfl | rfl
    · refine ⟨fun _ f hf hsimple => ?_, (fun _ heq => by cases heq),
        (fun _ _ _ heq => by cases heq)⟩
      cases List.mem_singleton.mp hf
      cases hsimple
    · refine ⟨fun _ f hf _ => ?_, (fun _ heq => by cases heq), (fun _ _ _ heq => by cases heq)⟩
      cases List.mem_singleton.mp hf
      decide +kernel

end Iso15118.Codegen
