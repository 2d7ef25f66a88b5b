import Iso15118.Codegen.Elements
import Iso15118.Codegen.Minimal
import Iso15118.Codegen.Verify
import Iso15118.Lib.Pruning

/-!
# What is generated of a schema

Which complex types of a schema can be structs is known before any code is written. A type that
needs one that cannot be is left out as well, and why is on record: **`generatable_largest`**.
-/

namespace Iso15118.Codegen

open Lib Exi

/-! ## Errors as text

A type that is left out has the reason on record as text, and these are the texts. -/

/-- `Display` of the errors of `grammar.rs`. -/
def GrammarError.display : GrammarError → String
  | .unsupported what => "unsupported content model construct: " ++ what
  | .cyclicDerivation => "cyclic type derivation"

/-- `Display` of the errors of `layout.rs`. -/
def LayoutError.display : LayoutError → String
  | .unsupported what => "unsupported for code generation: " ++ what
  | .cyclicDerivation => "grammar: " ++ GrammarError.cyclicDerivation.display
  | .widthMismatch position expected actual =>
      "width at position " ++ toString position ++ ": layout says " ++ toString expected
        ++ ", grammar says " ++ toString actual
  | .missingProduction position code =>
      "no production at position " ++ toString position ++ " code " ++ toString code
  | .productionMismatch position code =>
      "production at position " ++ toString position ++ " code " ++ toString code
        ++ " names another element"

/-! ## Schemas

What the emitter looks at, in the order in which it does: types by name, and elements. -/

/-- `TypeDef`, with what either kind consists of. -/
inductive TypeBody where
  | simple (st : SimpleType)
  | complex (ct : ComplexType)

/-- `Schema`: what of it the emitter reads. -/
structure WholeSchema where
  globalElements : List GlobalElement
  types : SortedMap QName TypeBody
  anonymous : List TypeBody

namespace WholeSchema

variable (W : WholeSchema)

/-- `Schema::resolve`. -/
def resolve : TypeRef → Option TypeBody
  | .named q => W.types.find? q
  | .anonymous i => W.anonymous[i]?

/-- `Some(TypeDef::Complex(ct))`. -/
def complexOf (typeRef : TypeRef) : Option ComplexType :=
  match W.resolve typeRef with
  | some (.complex ct) => some ct
  | _ => none

/-- What grammars and layouts are made from. -/
def schema : Schema := ⟨fun q => W.complexOf (.named q)⟩

/-- The complex types of the schema that have a name, in the order of their names. -/
def complexTypes : List (QName × ComplexType) :=
  W.types.entries.filterMap fun e =>
    match e.2 with
    | .complex ct => some (e.1, ct)
    | .simple _ => none

end WholeSchema

/-! ## The names of roots

An element with an inline type gives that type a name, made of its own. -/

/-- The turns of `pascal`. -/
def pascalChars (toUppercase : Char → List Char) : Bool → List Char → List Char
  | _, [] => []
  | upperNext, ch :: rest =>
      if ch = '_' ∨ ch = '-' ∨ ch = '.' then pascalChars toUppercase true rest
      else if upperNext then toUppercase ch ++ pascalChars toUppercase false rest
      else ch :: pascalChars toUppercase false rest

/-- `pascal`. -/
def pascal (toUppercase : Char → List Char) (name : String) : String :=
  String.ofList (pascalChars toUppercase true name.toList)

/-- `name_anonymous_roots`: the element that declares an anonymous type, the last if there were
several, and the name made of it. -/
def anonymousRoot (toUppercase : Char → List Char) (W : WholeSchema) (i : Nat) :
    Option (QName × String) :=
  if (W.complexOf (.anonymous i)).isSome then
    (W.globalElements.reverse.find? fun e => e.typeRef = .anonymous i).map fun e =>
      (e.name, pascal toUppercase e.name.localName)
  else none

/-! ## The types that can be structs

Two loops. The first looks at each type by itself, and the second leaves out what needs a type
that is not there, until nothing more has to go. -/

/-- `Branch::field`. -/
def Branch.field? : Branch → Option Field
  | .element f => some f
  | .wildcard => none

/-- An `xs:any`, or a choice one of whose branches is one. -/
def Item.untyped : Item → Bool
  | .wildcard _ _ => true
  | .choice branches _ _ => branches.any fun b => b.field?.isNone
  | _ => false

/-- The fields of an item that say something about the type. An optional choice may be dropped
whole. -/
def Item.fields : Item → List Field
  | .attribute f | .element f => [f]
  | .choice branches min _ => if min > 0 then branches.filterMap Branch.field? else []
  | .characters _ | .wildcard _ _ => []

/-- What going through the items of a type gathers: `referenced`, and the last reason there was to
leave the type out. `ok` is that there was none. -/
structure Scan where
  referenced : List QName
  why : Option String

/-- The exclusion of a type whose content has no form of its own. -/
def untypedReason : String :=
  "a required xs:any or wildcard choice branch has no Rust form"

/-- The exclusion of a type with an inline type that has no name. -/
def inlineReason (f : Field) : String :=
  "inline complex type of " ++ f.name.display ++ " is not a named root"

/-- The exclusion of a type that needs another, as far as that is known. -/
def blockedReason (blocker : Option QName) : String :=
  "required child type " ++ blocker.elim "" QName.display ++ " is not generated"

section Tables

variable (toUppercase : Char → List Char) (W : WholeSchema)

namespace WholeSchema

/-- A turn of the loop over the fields of an item. -/
def scanField (scan : Scan) (f : Field) : Scan :=
  match f.typeRef with
  | .named q =>
      if f.min > 0 ∧ (W.complexOf (.named q)).isSome then
        { scan with referenced := scan.referenced ++ [q] }
      else scan
  | .anonymous i =>
      if (W.complexOf (.anonymous i)).isSome ∧ (anonymousRoot toUppercase W i).isNone then
        { scan with why := some (inlineReason f) }
      else scan

/-- A turn of the loop over the items of a type. -/
def scanItem (scan : Scan) (item : Item) : Scan :=
  let scan :=
    if item.min > 0 ∧ item.untyped then { scan with why := some untypedReason } else scan
  item.fields.foldl (scanField toUppercase W) scan

/-- The complex types that a type needs, or why it cannot be a struct. It is `none` where the check
of its layout panics. -/
def survey (ct : ComplexType) : Option (Except String (List QName)) :=
  match Layout.of W.schema ct with
  | .error e => some (.error e.display)
  | .ok layout =>
      match layout.verify W.schema ct with
      | .error .panicked => none
      | .error (.layout e) => some (.error e.display)
      | .error (.grammar e) => some (.error ("grammar: " ++ e.display))
      | .ok () =>
          let scan := layout.items.foldl (scanItem toUppercase W) ⟨[], none⟩
          some (match scan.why with
            | some why => .error why
            | none => .ok scan.referenced)

/-- The first loop of `find_generatable`. -/
def surveys : Option (List (QName × Except String (List QName))) :=
  W.complexTypes.mapM fun e => (W.survey toUppercase e.2).map fun verdict => (e.1, verdict)

end WholeSchema

end Tables

/-- `candidates`. -/
def candidatesOf (surveys : List (QName × Except String (List QName))) : List QName :=
  surveys.filterMap fun e => e.2.toOption.map fun _ => e.1

/-- `children`. -/
def childrenOf (surveys : List (QName × Except String (List QName))) (name : QName) : List QName :=
  ((SortedMap.lookup name surveys).bind Except.toOption).getD []

/-- The exclusions of the first loop. -/
def exclusionsOf (surveys : List (QName × Except String (List QName))) : List (QName × String) :=
  surveys.filterMap fun e =>
    match e.2 with
    | .error why => some (e.1, why)
    | .ok _ => none

/-- `generatable` and `excluded`. -/
structure Generatable where
  generatable : List QName
  excluded : SortedMap QName String

/-- `find_generatable`. -/
def WholeSchema.findGeneratable (toUppercase : Char → List Char) (W : WholeSchema) :
    Option Generatable :=
  (W.surveys toUppercase).map fun surveys =>
    let pruned := prune (childrenOf surveys) (candidatesOf surveys)
    { generatable := pruned.kept
      excluded := (SortedMap.empty.insertAll (exclusionsOf surveys)).insertAll
        (pruned.blocked.map fun e => (e.1, blockedReason e.2)) }

/-! ## What the scan of a type finds

The loop over the items keeps the last reason it comes across, and what it has gathered before.
What it says at the end is that no item has a reason, and which types the required fields need;
the second loop is then that of `Lib.Pruning`. -/

section Scans

variable (toUppercase : Char → List Char) (W : WholeSchema)

/-- An inline complex type that no global element names. -/
def Field.nameless (f : Field) : Bool :=
  match f.typeRef with
  | .named _ => false
  | .anonymous i => (W.complexOf f.typeRef).isSome && (anonymousRoot toUppercase W i).isNone

/-- The complex type that a field needs. An optional one may be a phantom. -/
def Field.needed (f : Field) : Option QName :=
  match f.typeRef with
  | .named q => if f.min > 0 ∧ (W.complexOf (.named q)).isSome then some q else none
  | .anonymous _ => none

/-- An item that keeps no type from being a struct by itself. -/
def Item.Plain (item : Item) : Prop :=
  ¬ (item.min > 0 ∧ item.untyped = true)
    ∧ ∀ f ∈ item.fields, f.nameless toUppercase W = false

namespace WholeSchema

/-- A complex type that can be a struct if the types it needs can. -/
def Expressible (q : QName) : Prop :=
  ∃ ct layout, W.complexOf (.named q) = some ct ∧ Layout.of W.schema ct = .ok layout
    ∧ layout.verify W.schema ct = .ok () ∧ ∀ item ∈ layout.items, item.Plain toUppercase W

/-- The first type has a required child of the other, which is complex. -/
def NeedsType (q child : QName) : Prop :=
  ∃ ct layout, W.complexOf (.named q) = some ct ∧ Layout.of W.schema ct = .ok layout
    ∧ ∃ item ∈ layout.items, ∃ f ∈ item.fields, f.needed W = some child

end WholeSchema

end Scans

section Spec

variable {toUppercase : Char → List Char} {W : WholeSchema}

namespace WholeSchema

theorem scanField_referenced (scan : Scan) (f : Field) :
    (W.scanField toUppercase scan f).referenced = scan.referenced ++ (f.needed W).toList := by
  unfold scanField Field.needed
  cases f.typeRef with
  | named q =>
    dsimp only
    split
    · rfl
    · exact (List.append_nil _).symm
  | anonymous i =>
    dsimp only
    split
    · exact (List.append_nil _).symm
    · exact (List.append_nil _).symm

theorem scanField_why (scan : Scan) (f : Field) :
    (W.scanField toUppercase scan f).why = none
      ↔ scan.why = none ∧ f.nameless toUppercase W = false := by
  unfold scanField Field.nameless
  cases f.typeRef with
  | named q =>
    dsimp only
    split <;> simp
  | anonymous i =>
    dsimp only
    split
    · next h => simp [h]
    · next h =>
      rw [← Bool.not_eq_true, Bool.and_eq_true]
      exact (and_iff_left h).symm

theorem foldl_scanField (scan : Scan) (fields : List Field) :
    (fields.foldl (W.scanField toUppercase) scan).referenced
        = scan.referenced ++ fields.filterMap (·.needed W)
      ∧ ((fields.foldl (W.scanField toUppercase) scan).why = none
        ↔ scan.why = none ∧ ∀ f ∈ fields, f.nameless toUppercase W = false) := by
  induction fields generalizing scan with
  | nil => simp
  | cons f fields ih =>
    obtain ⟨hreferenced, hwhy⟩ := ih (W.scanField toUppercase scan f)
    rw [List.foldl_cons]
    constructor
    · rw [hreferenced, scanField_referenced, List.append_assoc]
      cases hneeded : f.needed W with
      | none => rw [List.filterMap_cons_none hneeded]; rfl
      | some q => rw [List.filterMap_cons_some hneeded]; rfl
    · rw [hwhy, scanField_why, List.forall_mem_cons, and_assoc]

theorem scanItem_spec (scan : Scan) (item : Item) :
    (W.scanItem toUppercase scan item).referenced
        = scan.referenced ++ item.fields.filterMap (·.needed W)
      ∧ ((W.scanItem toUppercase scan item).why = none
        ↔ scan.why = none ∧ item.Plain toUppercase W) := by
  unfold scanItem Item.Plain
  dsimp only
  by_cases huntyped : item.min > 0 ∧ item.untyped = true
  · rw [if_pos huntyped]
    obtain ⟨hreferenced, hwhy⟩ :=
      foldl_scanField { scan with why := some untypedReason } item.fields
    exact ⟨hreferenced, by simp [hwhy, huntyped]⟩
  · rw [if_neg huntyped]
    obtain ⟨hreferenced, hwhy⟩ := foldl_scanField scan item.fields
    exact ⟨hreferenced, by rw [hwhy, and_iff_right huntyped]⟩

theorem foldl_scanItem (scan : Scan) (items : List Item) :
    (items.foldl (W.scanItem toUppercase) scan).referenced
        = scan.referenced ++ items.flatMap (fun item => item.fields.filterMap (·.needed W))
      ∧ ((items.foldl (W.scanItem toUppercase) scan).why = none
        ↔ scan.why = none ∧ ∀ item ∈ items, item.Plain toUppercase W) := by
  induction items generalizing scan with
  | nil => simp
  | cons item items ih =>
    obtain ⟨hreferenced, hwhy⟩ := ih (W.scanItem toUppercase scan item)
    rw [List.foldl_cons]
    constructor
    · rw [hreferenced, (scanItem_spec scan item).1, List.append_assoc, List.flatMap_cons]
    · rw [hwhy, (scanItem_spec scan item).2, List.forall_mem_cons, and_assoc]

/-- A type that can be a struct, with the types it needs. -/
theorem survey_eq_ok {ct : ComplexType} {children : List QName} :
    W.survey toUppercase ct = some (.ok children) ↔
      ∃ layout, Layout.of W.schema ct = .ok layout ∧ layout.verify W.schema ct = .ok ()
        ∧ (∀ item ∈ layout.items, item.Plain toUppercase W)
        ∧ children = layout.items.flatMap fun item => item.fields.filterMap (·.needed W) := by
  unfold survey
  cases hlayout : Layout.of W.schema ct with
  | error e => simp
  | ok layout =>
    obtain ⟨hreferenced, hwhy⟩ :=
      @foldl_scanItem toUppercase W ⟨[], none⟩ layout.items
    dsimp only
    -- the layout is checked before the items are
    cases hverify : layout.verify W.schema ct with
    | error e => cases e <;> simp [hverify]
    | ok u =>
      dsimp only
      rw [hreferenced]
      cases hscan : (layout.items.foldl (W.scanItem toUppercase) ⟨[], none⟩).why with
      | some why =>
        have hnot : ¬ ∀ item ∈ layout.items, item.Plain toUppercase W := fun hplain =>
          Option.some_ne_none why (hscan.symm.trans (hwhy.mpr ⟨rfl, hplain⟩))
        simp [hnot]
      | none =>
        have hplain := (hwhy.mp hscan).2
        -- what is left says that every item is plain, and which types they name
        constructor
        · intro heq
          cases heq
          exact ⟨layout, rfl, hverify, hplain, rfl⟩
        · rintro ⟨layout', heq, -, -, hchildren⟩
          cases heq
          rw [hchildren]
          rfl

theorem complexOf_named {q : QName} {ct : ComplexType} :
    W.complexOf (.named q) = some ct ↔ W.types.find? q = some (.complex ct) := by
  have hresolve : W.resolve (.named q) = W.types.find? q := rfl
  rw [complexOf, hresolve]
  cases W.types.find? q with
  | none => simp
  | some body => cases body <;> simp

theorem mem_complexTypes {q : QName} {ct : ComplexType} :
    (q, ct) ∈ W.complexTypes ↔ W.complexOf (.named q) = some ct := by
  rw [complexOf_named, SortedMap.find?_eq_some, complexTypes, List.mem_filterMap]
  constructor
  · intro ⟨e, he, heq⟩
    obtain ⟨name, body⟩ := e
    cases body with
    | simple st => cases heq
    | complex ct' =>
      cases heq
      exact he
  · exact fun h => ⟨_, h, rfl⟩

theorem complexTypes_sorted : W.complexTypes.Pairwise fun a b => a.1 < b.1 := by
  refine W.types.sorted.filterMap _ fun e e' hlt b hb b' hb' => ?_
  obtain ⟨name, body⟩ := e
  obtain ⟨name', body'⟩ := e'
  cases body with
  | simple st => cases hb
  | complex ct =>
    cases body' with
    | simple st => cases hb'
    | complex ct' =>
      cases hb
      cases hb'
      exact hlt

end WholeSchema

/-- A traversal of the values of a map keeps its keys, and has no value that is not made of one. -/
theorem of_mapM_values {κ α β : Type} {f : α → Option β} {l : List (κ × α)} {l' : List (κ × β)}
    (h : l.mapM (fun e => (f e.2).map fun b => (e.1, b)) = some l') :
    l'.map Prod.fst = l.map Prod.fst ∧ ∀ k b, (k, b) ∈ l' ↔ ∃ a, (k, a) ∈ l ∧ f a = some b := by
  induction l generalizing l' with
  | nil =>
    cases h
    simp
  | cons e l ih =>
    obtain ⟨k, a⟩ := e
    rw [List.mapM_cons] at h
    obtain ⟨first, hfirst, h⟩ := Option.bind_eq_some_iff.mp h
    obtain ⟨rest, hrest, hlast⟩ := Option.bind_eq_some_iff.mp h
    cases hlast
    obtain ⟨b, hb, rfl⟩ := Option.map_eq_some_iff.mp hfirst
    obtain ⟨hkeys, hmem⟩ := ih hrest
    refine ⟨congrArg (k :: ·) hkeys, fun k' b' => ?_⟩
    rw [List.mem_cons, hmem, Prod.mk.injEq]
    constructor
    · intro hor
      rcases hor with ⟨rfl, rfl⟩ | ⟨a', ha', hb'⟩
      · exact ⟨a, List.mem_cons_self, hb⟩
      · exact ⟨a', List.mem_cons_of_mem _ ha', hb'⟩
    · intro ⟨a', ha', hb'⟩
      rcases List.mem_cons.mp ha' with heq | ha'
      · cases heq
        exact .inl ⟨rfl, Option.some_injective _ (hb'.symm.trans hb)⟩
      · exact .inr ⟨a', ha', hb'⟩

namespace WholeSchema

variable {surveys : List (QName × Except String (List QName))} {q : QName}

theorem surveys_sorted (h : W.surveys toUppercase = some surveys) :
    surveys.Pairwise fun a b => a.1 < b.1 := by
  refine List.pairwise_map.mp (?_ : (surveys.map Prod.fst).Pairwise (· < ·))
  rw [(of_mapM_values h).1]
  exact List.pairwise_map.mpr complexTypes_sorted

/-- Every complex type that has a name is looked at. -/
theorem mem_surveys (h : W.surveys toUppercase = some surveys)
    {verdict : Except String (List QName)} :
    (q, verdict) ∈ surveys ↔
      ∃ ct, W.complexOf (.named q) = some ct ∧ W.survey toUppercase ct = some verdict := by
  rw [(of_mapM_values h).2]
  simp only [mem_complexTypes]

theorem exists_survey (h : W.surveys toUppercase = some surveys) {ct : ComplexType}
    (hct : W.complexOf (.named q) = some ct) : ∃ verdict, (q, verdict) ∈ surveys := by
  have hkey : q ∈ W.complexTypes.map Prod.fst := List.mem_map.mpr ⟨_, mem_complexTypes.mpr hct, rfl⟩
  rw [← (of_mapM_values h).1] at hkey
  obtain ⟨e, he, rfl⟩ := List.mem_map.mp hkey
  exact ⟨e.2, he⟩

theorem mem_candidatesOf (h : W.surveys toUppercase = some surveys) :
    q ∈ candidatesOf surveys ↔ W.Expressible toUppercase q := by
  unfold candidatesOf Expressible
  rw [List.mem_filterMap]
  constructor
  · intro ⟨e, he, hname⟩
    obtain ⟨name, verdict⟩ := e
    cases verdict with
    | error why => cases hname
    | ok children =>
      cases hname
      obtain ⟨ct, hct, hsurvey⟩ := (mem_surveys h).mp he
      obtain ⟨layout, hlayout, hverify, hplain, -⟩ := survey_eq_ok.mp hsurvey
      exact ⟨ct, layout, hct, hlayout, hverify, hplain⟩
  · intro ⟨ct, layout, hct, hlayout, hverify, hplain⟩
    have hsurvey := survey_eq_ok.mpr ⟨layout, hlayout, hverify, hplain, rfl⟩
    exact ⟨_, (mem_surveys h).mpr ⟨ct, hct, hsurvey⟩, rfl⟩

theorem mem_childrenOf (h : W.surveys toUppercase = some surveys)
    (hq : W.Expressible toUppercase q) {child : QName} :
    child ∈ childrenOf surveys q ↔ W.NeedsType q child := by
  obtain ⟨ct, layout, hct, hlayout, hverify, hplain⟩ := hq
  have hsurvey := survey_eq_ok.mpr ⟨layout, hlayout, hverify, hplain, rfl⟩
  have hlookup := (SortedMap.lookup_eq_some (surveys_sorted h)).mpr
    ((mem_surveys h).mpr ⟨ct, hct, hsurvey⟩)
  have hmem : child ∈ childrenOf surveys q ↔
      ∃ item ∈ layout.items, ∃ f ∈ item.fields, f.needed W = some child := by
    rw [childrenOf, hlookup]
    simp [Except.toOption, List.mem_flatMap, List.mem_filterMap]
  rw [hmem]
  constructor
  · exact fun hchild => ⟨ct, layout, hct, hlayout, hchild⟩
  · intro ⟨ct', layout', hct', hlayout', hchild⟩
    cases hct.symm.trans hct'
    cases hlayout.symm.trans hlayout'
    exact hchild

theorem mem_exclusionsOf (h : W.surveys toUppercase = some surveys) {why : String} :
    (q, why) ∈ exclusionsOf surveys ↔
      ∃ ct, W.complexOf (.named q) = some ct ∧ W.survey toUppercase ct = some (.error why) := by
  rw [← mem_surveys h, exclusionsOf, List.mem_filterMap]
  constructor
  · intro ⟨e, he, heq⟩
    obtain ⟨name, verdict⟩ := e
    cases verdict with
    | ok children => cases heq
    | error why' =>
      cases heq
      exact he
  · exact fun hin => ⟨_, hin, rfl⟩

/-- Sets of types that can be structs together. -/
theorem selfSufficient_iff (h : W.surveys toUppercase = some surveys) {S : Set QName} :
    SelfSufficient (childrenOf surveys) (candidatesOf surveys) S ↔
      ∀ q ∈ S, W.Expressible toUppercase q ∧ ∀ child, W.NeedsType q child → child ∈ S := by
  refine forall₂_congr fun q _ => ?_
  rw [mem_candidatesOf h]
  constructor
  · intro ⟨hq, hchildren⟩
    exact ⟨hq, fun child hchild => hchildren child ((mem_childrenOf h hq).mpr hchild)⟩
  · intro ⟨hq, hchildren⟩
    exact ⟨hq, fun child hchild => hchildren child ((mem_childrenOf h hq).mp hchild)⟩

/-- What `find_generatable` is left with. -/
theorem expressible_of_kept (h : W.surveys toUppercase = some surveys)
    (hq : q ∈ (prune (childrenOf surveys) (candidatesOf surveys)).kept) :
    W.Expressible toUppercase q :=
  (mem_candidatesOf h).mp ((sound_prune _ _).kept q hq)

/-- What the second loop leaves out, and on what grounds. -/
theorem blocked_prune (h : W.surveys toUppercase = some surveys) {why : String}
    (hin : (q, why) ∈ (prune (childrenOf surveys) (candidatesOf surveys)).blocked.map
      fun e => (e.1, blockedReason e.2)) :
    W.Expressible toUppercase q ∧ q ∉ (prune (childrenOf surveys) (candidatesOf surveys)).kept
      ∧ ∃ child, W.NeedsType q child
        ∧ child ∉ (prune (childrenOf surveys) (candidatesOf surveys)).kept
        ∧ why = blockedReason (some child) := by
  obtain ⟨e, he, heq⟩ := List.mem_map.mp hin
  cases heq
  obtain ⟨hcandidate, hout, child, hchild, hgone, hwhy⟩ := prune_blocked he
  have hq := (mem_candidatesOf h).mp hcandidate
  exact ⟨hq, hout, child, (mem_childrenOf h hq).mp hchild, hgone, by rw [hwhy]⟩

/-- The first loop leaves nothing out that is a candidate. -/
theorem not_expressible_of_excluded (h : W.surveys toUppercase = some surveys) {why : String}
    (hin : (q, why) ∈ exclusionsOf surveys) :
    ¬ W.Expressible toUppercase q := by
  rintro ⟨ct, layout, hct, hlayout, hverify, hplain⟩
  obtain ⟨ct', hct', hsurvey⟩ := (mem_exclusionsOf h).mp hin
  cases hct.symm.trans hct'
  have hok := survey_eq_ok.mpr ⟨layout, hlayout, hverify, hplain, rfl⟩
  cases hsurvey.symm.trans hok

/-- What is generated can be expressed, and has the types it needs. -/
theorem closed_generatable {G : Generatable} (h : W.findGeneratable toUppercase = some G)
    (hq : q ∈ G.generatable) : W.Expressible toUppercase q
      ∧ ∀ child, W.NeedsType q child → child ∈ G.generatable := by
  obtain ⟨surveys, hsurveys, rfl⟩ := Option.map_eq_some_iff.mp h
  exact (selfSufficient_iff hsurveys).mp (selfSufficient_prune _ _) q hq

/-- The types generated are the largest set of complex types whose content can be expressed and that
has every type one of them needs. Every other complex type is on record, and no type besides, with
why: its own content stands in the way, or a type it needs that is not generated either. -/
theorem generatable_largest {G : Generatable} (h : W.findGeneratable toUppercase = some G) :
    (∀ q, q ∈ G.generatable ↔ ∃ S : Set QName,
        (∀ x ∈ S, W.Expressible toUppercase x ∧ ∀ child, W.NeedsType x child → child ∈ S) ∧ q ∈ S)
      ∧ (∀ q, (G.excluded.find? q).isSome
          ↔ (W.complexOf (.named q)).isSome ∧ q ∉ G.generatable)
      ∧ ∀ q why, G.excluded.find? q = some why →
          (∃ ct, W.complexOf (.named q) = some ct ∧ W.survey toUppercase ct = some (.error why))
            ∨ ∃ child, W.NeedsType q child ∧ child ∉ G.generatable
                ∧ why = blockedReason (some child) := by
  obtain ⟨surveys, hsurveys, rfl⟩ := Option.map_eq_some_iff.mp h
  refine ⟨fun q => ?_, fun q => ?_, fun q why hfind => ?_⟩
  -- what is left after the pruning is a set that needs nothing outside itself
  · exact mem_prune_iff.trans
      (exists_congr fun S => and_congr_left fun _ => selfSufficient_iff hsurveys)
  · refine SortedMap.isSome_find?_insertAll.trans ?_
    rw [SortedMap.isSome_find?_insertAll]
    constructor
    -- excluded by the survey, or blocked by what it needs
    · rintro ((hempty | ⟨why, hin⟩) | ⟨why, hin⟩)
      · cases hempty
      · obtain ⟨ct, hct, -⟩ := (mem_exclusionsOf hsurveys).mp hin
        refine ⟨Option.isSome_iff_exists.mpr ⟨ct, hct⟩, fun hkept => ?_⟩
        exact not_expressible_of_excluded hsurveys hin (expressible_of_kept hsurveys hkept)
      · obtain ⟨⟨ct, layout, hct, -⟩, hout, -⟩ := blocked_prune hsurveys hin
        exact ⟨Option.isSome_iff_exists.mpr ⟨ct, hct⟩, hout⟩
    · intro ⟨hcomplex, hout⟩
      obtain ⟨ct, hct⟩ := Option.isSome_iff_exists.mp hcomplex
      obtain ⟨verdict, hverdict⟩ := exists_survey hsurveys hct
      cases verdict with
      | error why => exact .inl (.inr ⟨why, List.mem_filterMap.mpr ⟨_, hverdict, rfl⟩⟩)
      | ok children =>
        have hcandidate : q ∈ candidatesOf surveys := List.mem_filterMap.mpr ⟨_, hverdict, rfl⟩
        obtain ⟨blocker, hblocker⟩ := prune_recorded hcandidate hout
        exact .inr ⟨_, List.mem_map.mpr ⟨_, hblocker, rfl⟩⟩
  · rcases SortedMap.find?_insertAll_eq_some hfind with hfind | hin
    · rcases SortedMap.find?_insertAll_eq_some hfind with hfind | hin
      · cases hfind
      · exact .inl ((mem_exclusionsOf hsurveys).mp hin)
    · exact .inr (blocked_prune hsurveys hin).2.2

end WholeSchema

end Spec

/-- A complex type with one element after another. -/
def typeOf (elements : List Particle) : TypeBody :=
  .complex ⟨none, .none, some (.sequence elements 1 1), [], false, none⟩

/-- An element of a type of the same schema. -/
def elementOf (name typeName : String) (min : Nat) : Particle :=
  .element ⟨⟨name, ""⟩, .named ⟨typeName, ""⟩, min, 1, false⟩

/-- Limits cannot be expressed. Profiles need them, and plans need a profile; a meter only may have
a plan, and a site needs a meter and a sum. -/
def meterSchema : WholeSchema where
  globalElements := []
  types := SortedMap.empty.insertAll
    [(⟨"LimitsType", ""⟩,
        .complex ⟨none, .none, some (.all [elementOf "Max" "ValueType" 1] 1 1), [], false, none⟩),
      (⟨"MeterType", ""⟩, typeOf [elementOf "Plan" "PlanType" 0, elementOf "Sum" "ValueType" 1]),
      (⟨"PlanType", ""⟩, typeOf [elementOf "Profile" "ProfileType" 1]),
      (⟨"ProfileType", ""⟩, typeOf [elementOf "Limits" "LimitsType" 1]),
      (⟨"SiteType", ""⟩, typeOf [elementOf "Meter" "MeterType" 1, elementOf "Sum" "ValueType" 1]),
      (⟨"ValueType", ""⟩, .simple ⟨some ⟨"int", xsdNs⟩, [], none, none, none, none⟩)]
  anonymous := []

/-- `to_uppercase`, where it is of one character. -/
def upperAscii (c : Char) : List Char := [c.toUpper]

/-- The meter is generated and so is the site that needs it, and the plan is not for want of a
profile. -/
theorem generatable_largest_meter : ∃ G, meterSchema.findGeneratable upperAscii = some G
    ∧ (∃ S : Set QName, (∀ x ∈ S, meterSchema.Expressible upperAscii x
          ∧ ∀ child, meterSchema.NeedsType x child → child ∈ S) ∧ ⟨"MeterType", ""⟩ ∈ S)
    ∧ ⟨"PlanType", ""⟩ ∉ G.generatable
    ∧ G.excluded.find? ⟨"PlanType", ""⟩
        = some "required child type ProfileType is not generated" := by
  have hfound : (meterSchema.findGeneratable upperAscii).map (fun G => (G.generatable,
      G.excluded.find? ⟨"PlanType", ""⟩)) = some ([⟨"MeterType", ""⟩, ⟨"SiteType", ""⟩],
        some "required child type ProfileType is not generated") := by decide +kernel
  obtain ⟨G, hG, heq⟩ := Option.map_eq_some_iff.mp hfound
  obtain ⟨hkept, hplan⟩ := Prod.mk.inj heq
  obtain ⟨hlargest, hrecord, -⟩ := WholeSchema.generatable_largest hG
  refine ⟨G, hG, (hlargest _).mp ?_, ((hrecord _).mp ?_).2, hplan⟩
  · rw [hkept]
    exact List.mem_cons_self
  · rw [hplan]
    rfl

end Iso15118.Codegen
