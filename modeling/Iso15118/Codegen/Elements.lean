import Iso15118.Codegen.Derivation
import Iso15118.Lib.SortedMap
import Iso15118.Lib.Worklist
import Mathlib.Data.List.Destutter

/-!
# The elements of a schema set

`xsd.rs`: which elements may stand for one another, and which there are at all. Both lists give
their elements event codes, so an element left out of one shifts the codes of all behind it.

* **`substitutesFor`** — the elements that may stand where one is referenced, with
  **`substitutesFor_complete`**;
* **`SchemaSet.declaredElementQnames`**, **`SchemaSet.declaredElements`** — every name that is
  declared, and the ones whose declarations agree, with **`SchemaSet.declared_exactly`**.
-/

namespace Iso15118.Codegen

open Lib

/-- Names are compared the way EXI orders them. -/
instance instLinearOrderQName : LinearOrder QName where
  le a b := a.le b = true
  le_refl a := (QName.total a a).elim id id
  le_trans _ _ _ := QName.trans
  le_antisymm _ _ := QName.antisymm
  le_total := QName.total
  toDecidableLE a b := inferInstanceAs (Decidable (a.le b = true))
  toDecidableEq := inferInstance

/-! ## Substitution groups

Membership is indexed by head, and the elements below a head are found with a stack. An element
that was found is passed over, so the search ends even where groups lead back to themselves. -/

/-- `Declaration`: of a global element, the head of the group it is in. -/
structure Declaration where
  substitutionGroup : Option QName
  deriving DecidableEq

abbrev Groups : Type := SortedMap QName (List QName)

/-- One turn of `index_substitution_groups`. -/
def indexGroup (groups : Groups) (entry : QName × Declaration) : Groups :=
  match entry.2.substitutionGroup with
  | none => groups
  | some head => groups.alter head fun members => members.getD [] ++ [entry.1]

/-- `Schema::index_substitution_groups`. -/
def indexSubstitutionGroups (declarations : SortedMap QName Declaration) : Groups :=
  (declarations.entries.foldl indexGroup .empty).filterMap fun members =>
    some (members.insertionSort (· ≤ ·))

/-- The members of a group, none where there is no such group. -/
def Groups.members (groups : Groups) (head : QName) : List QName := (groups.find? head).getD []

/-- A member leads to the group it heads. The last of them is the first the stack gives back. -/
def Groups.links (groups : Groups) : Links QName where
  next name := (groups.members name).reverse
  nodes := groups.entries.flatMap (·.2)
  next_mem name member hmember := by
    rw [List.mem_reverse, members] at hmember
    cases hfind : groups.find? name with
    | none =>
      rw [hfind] at hmember
      cases hmember
    | some ms =>
      rw [hfind] at hmember
      exact List.mem_flatMap.mpr ⟨_, SortedMap.find?_eq_some.mp hfind, hmember⟩

/-- `Schema::substitutes_for`. The head is there even if it is abstract. -/
def substitutesFor (declarations : SortedMap QName Declaration) (groups : Groups) (head : QName) :
    List QName :=
  let out := if (declarations.find? head).isSome then [head] else []
  let out := groups.links.explore out (groups.members head).reverse
  (out.insertionSort (· ≤ ·)).destutter (· ≠ ·)

/-- The element names the other one as the head of its group. -/
def Substitutes (declarations : SortedMap QName Declaration) (name head : QName) : Prop :=
  ∃ decl, declarations.find? name = some decl ∧ decl.substitutionGroup = some head

theorem members_indexGroup {groups : Groups} {name head member : QName} {decl : Declaration} :
    member ∈ (indexGroup groups (name, decl)).members head ↔
      member ∈ groups.members head ∨ (member = name ∧ decl.substitutionGroup = some head) := by
  unfold indexGroup Groups.members
  cases hgroup : decl.substitutionGroup with
  | none => simp
  | some head' =>
    simp only [SortedMap.find?_alter]
    by_cases hhead : head = head'
    · rw [if_pos hhead, hhead]
      simp
    · rw [if_neg hhead]
      simp [Ne.symm hhead]

theorem members_foldl {groups : Groups} {entries : List (QName × Declaration)}
    {head member : QName} : member ∈ (entries.foldl indexGroup groups).members head ↔
      member ∈ groups.members head
        ∨ ∃ decl, (member, decl) ∈ entries ∧ decl.substitutionGroup = some head := by
  induction entries generalizing groups with
  | nil => simp
  | cons entry entries ih =>
    obtain ⟨name, decl⟩ := entry
    rw [List.foldl_cons, ih, members_indexGroup, or_assoc]
    refine or_congr_right ⟨?_, ?_⟩
    · rintro (⟨rfl, hgroup⟩ | ⟨d, hin, hgroup⟩)
      · exact ⟨decl, List.mem_cons_self, hgroup⟩
      · exact ⟨d, List.mem_cons_of_mem _ hin, hgroup⟩
    · rintro ⟨d, hin, hgroup⟩
      rcases List.mem_cons.mp hin with heq | hin
      · cases heq
        exact .inl ⟨rfl, hgroup⟩
      · exact .inr ⟨d, hin, hgroup⟩

theorem members_index {declarations : SortedMap QName Declaration} {head member : QName} :
    member ∈ (indexSubstitutionGroups declarations).members head
      ↔ Substitutes declarations member head := by
  have hsorted : member ∈ (indexSubstitutionGroups declarations).members head ↔
      member ∈ Groups.members (declarations.entries.foldl indexGroup .empty) head := by
    unfold indexSubstitutionGroups Groups.members
    rw [SortedMap.find?_filterMap]
    cases (declarations.entries.foldl indexGroup .empty).find? head with
    | none => exact Iff.rfl
    | some members => exact List.mem_insertionSort _
  rw [hsorted, members_foldl]
  unfold Substitutes
  simp only [SortedMap.find?_eq_some]
  refine or_iff_right ?_
  exact List.not_mem_nil

/-- A list that has no name twice, sorted. -/
theorem sort_dedup {out : List QName} (h : out.Nodup) :
    ((out.insertionSort (· ≤ ·)).destutter (· ≠ ·)).Pairwise (· < ·)
      ∧ ∀ name, name ∈ (out.insertionSort (· ≤ ·)).destutter (· ≠ ·) ↔ name ∈ out := by
  have hnodup : (out.insertionSort (· ≤ ·)).Nodup :=
    (List.perm_insertionSort (· ≤ ·) out).nodup_iff.mpr h
  have hsame : (out.insertionSort (· ≤ ·)).destutter (· ≠ ·) = out.insertionSort (· ≤ ·) :=
    List.destutter_of_isChain _ _ (List.Pairwise.isChain hnodup)
  rw [hsame]
  refine ⟨?_, fun name => List.mem_insertionSort _⟩
  refine ((List.pairwise_insertionSort (· ≤ ·) out).and hnodup).imp ?_
  exact fun hle => lt_of_le_of_ne hle.1 hle.2

/-- **Substitution groups are expanded completely.** The elements that may stand for a head are in
order and none is there twice: the head itself if it is declared, and every declared element that
leads to it from group to group. -/
theorem substitutesFor_complete (declarations : SortedMap QName Declaration) (head : QName) :
    (substitutesFor declarations (indexSubstitutionGroups declarations) head).Pairwise (· < ·)
      ∧ ∀ name, name ∈ substitutesFor declarations (indexSubstitutionGroups declarations) head ↔
        (name = head ∧ ∃ decl, declarations.find? head = some decl)
          ∨ Relation.TransGen (Substitutes declarations) name head := by
  have hedge : ∀ a b, (indexSubstitutionGroups declarations).links.Edge a b
      ↔ Substitutes declarations b a := by
    intro a b
    rw [← members_index]
    exact List.mem_reverse
  unfold substitutesFor
  dsimp only
  -- the list the worklist starts from is the head itself, if it is declared
  have hout : (if (declarations.find? head).isSome then [head] else []).Nodup := by
    split
    · exact List.nodup_singleton head
    · exact List.nodup_nil
  have hclosed : (indexSubstitutionGroups declarations).links.Closed
      (if (declarations.find? head).isSome then [head] else [])
      ((indexSubstitutionGroups declarations).members head).reverse := by
    intro a ha b hab
    split at ha
    · rw [List.mem_singleton.mp ha] at hab
      exact .inr hab
    · cases ha
  obtain ⟨hsorted, hmem⟩ := sort_dedup (Links.nodup_explore hout)
  refine ⟨hsorted, fun name => ?_⟩
  rw [hmem, Links.mem_explore_iff hclosed]
  -- the head, or what leads to it by one link or more
  refine or_congr ?_ ?_
  · rw [← Option.isSome_iff_exists]
    split
    · next hdeclared => simp [hdeclared]
    · next hundeclared => simp [hundeclared]
  · -- the edges of the worklist are the group references, turned round
    have hswap : (indexSubstitutionGroups declarations).links.Edge
        = Function.swap (Substitutes declarations) := by
      funext a b
      exact propext (hedge a b)
    rw [← Relation.transGen_swap, ← hswap, Relation.TransGen.head'_iff]
    rfl

/-! ## The fragment table

`record` keeps a name's type as long as all its declarations agree, and forgets it for good once
two differ. The walk goes through the global elements and through every type, at any depth. -/

/-- `TypeDef`. What a simple type consists of does not matter here. -/
inductive TypeDef where
  | simple
  | complex (ct : ComplexType)

/-- `GlobalElement`. -/
structure GlobalElement where
  name : QName
  typeRef : TypeRef
  deriving DecidableEq

/-- `Schema`: a schema and all it imports. -/
structure SchemaSet where
  globalElements : List GlobalElement
  types : SortedMap QName TypeDef
  anonymous : List TypeDef

/-- A name with its type, or with none if its declarations differ. -/
abbrev Seen : Type := SortedMap QName (Option TypeRef)

/-- `record` of `walk_declarations`. -/
def record (seen : Seen) (name : QName) (typeRef : TypeRef) : Seen :=
  seen.alter name fun
    | none => some typeRef
    | some known => if known ≠ some typeRef then none else known

mutual

/-- `collect_elements`. -/
def collectElements : Particle → Seen → Seen
  | .element e, seen => record seen e.name e.typeRef
  | .sequence items _ _, seen | .choice items _ _, seen | .all items _ _, seen =>
      collectItems items seen
  | .any _ _, seen => seen

def collectItems : List Particle → Seen → Seen
  | [], seen => seen
  | item :: items, seen => collectItems items (collectElements item seen)

end

/-- What one type adds. -/
def collectType (seen : Seen) (type : TypeDef) : Seen :=
  match type with
  | .simple => seen
  | .complex ct =>
      match ct.particle with
      | none => seen
      | some particle => collectElements particle seen

namespace SchemaSet

/-- `Schema::walk_declarations`. -/
def walkDeclarations (schema : SchemaSet) : Seen :=
  let seen := schema.globalElements.foldl (fun seen e => record seen e.name e.typeRef) .empty
  (schema.types.entries.map (·.2) ++ schema.anonymous).foldl collectType seen

/-- `Schema::declared_element_qnames`. -/
def declaredElementQnames (schema : SchemaSet) : List QName := schema.walkDeclarations.keys

/-- `Schema::declared_elements`. -/
def declaredElements (schema : SchemaSet) : SortedMap QName TypeRef :=
  schema.walkDeclarations.filterMap id

end SchemaSet

/-- An element particle at any depth. -/
inductive Particle.Declares : Particle → QName → TypeRef → Prop where
  | element (e : ElementParticle) : Declares (.element e) e.name e.typeRef
  | sequence {items : List Particle} {min max : Nat} {item : Particle} {name : QName}
      {typeRef : TypeRef} (h : item ∈ items) (hitem : item.Declares name typeRef) :
      Declares (.sequence items min max) name typeRef
  | choice {items : List Particle} {min max : Nat} {item : Particle} {name : QName}
      {typeRef : TypeRef} (h : item ∈ items) (hitem : item.Declares name typeRef) :
      Declares (.choice items min max) name typeRef
  | all {items : List Particle} {min max : Nat} {item : Particle} {name : QName}
      {typeRef : TypeRef} (h : item ∈ items) (hitem : item.Declares name typeRef) :
      Declares (.all items min max) name typeRef

namespace SchemaSet

/-- A complex type, named or not. -/
def HasComplex (schema : SchemaSet) (ct : ComplexType) : Prop :=
  (∃ name, schema.types.find? name = some (.complex ct)) ∨ .complex ct ∈ schema.anonymous

/-- A declaration of the name with the type, global or in a complex type. -/
inductive Declares (schema : SchemaSet) : QName → TypeRef → Prop where
  | global {e : GlobalElement} (h : e ∈ schema.globalElements) :
      Declares schema e.name e.typeRef
  | inner {ct : ComplexType} {particle : Particle} {name : QName} {typeRef : TypeRef}
      (hct : schema.HasComplex ct) (hparticle : ct.particle = some particle)
      (h : particle.Declares name typeRef) : Declares schema name typeRef

end SchemaSet

/-! ### The declarations in a row

The nested walk records one declaration after another. Here they are laid out in a list, and the
walk becomes a fold over it. -/

mutual

/-- The declarations of a particle, in the order they are recorded. -/
def Particle.declared : Particle → List (QName × TypeRef)
  | .element e => [(e.name, e.typeRef)]
  | .sequence items _ _ | .choice items _ _ | .all items _ _ => itemsDeclared items
  | .any _ _ => []

def itemsDeclared : List Particle → List (QName × TypeRef)
  | [] => []
  | item :: items => item.declared ++ itemsDeclared items

end

/-- One declaration recorded. -/
def recordPair (seen : Seen) (d : QName × TypeRef) : Seen := record seen d.1 d.2

mutual

theorem collectElements_eq : ∀ (p : Particle) (seen : Seen),
    collectElements p seen = p.declared.foldl recordPair seen
  | .element _, _ => rfl
  | .sequence items _ _, seen | .choice items _ _, seen | .all items _ _, seen =>
      collectItems_eq items seen
  | .any _ _, _ => rfl

theorem collectItems_eq : ∀ (items : List Particle) (seen : Seen),
    collectItems items seen = (itemsDeclared items).foldl recordPair seen
  | [], _ => rfl
  | item :: items, seen => by
      rw [collectItems, collectElements_eq item, collectItems_eq items, itemsDeclared,
        List.foldl_append]

end

mutual

/-- What the walk lists of a particle is what the particle declares. -/
theorem mem_declared : ∀ (p : Particle) {name : QName} {typeRef : TypeRef},
    (name, typeRef) ∈ p.declared ↔ p.Declares name typeRef
  | .element e, name, typeRef => by
      rw [Particle.declared, List.mem_singleton]
      constructor
      · intro h
        cases h
        exact .element e
      · intro h
        cases h
        rfl
  | .sequence items min max, name, typeRef => by
      rw [Particle.declared, mem_itemsDeclared items]
      constructor
      · rintro ⟨item, hitem, h⟩
        exact .sequence hitem h
      · intro h
        cases h with
        | sequence hitem h => exact ⟨_, hitem, h⟩
  | .choice items min max, name, typeRef => by
      rw [Particle.declared, mem_itemsDeclared items]
      constructor
      · rintro ⟨item, hitem, h⟩
        exact .choice hitem h
      · intro h
        cases h with
        | choice hitem h => exact ⟨_, hitem, h⟩
  | .all items min max, name, typeRef => by
      rw [Particle.declared, mem_itemsDeclared items]
      constructor
      · rintro ⟨item, hitem, h⟩
        exact .all hitem h
      · intro h
        cases h with
        | all hitem h => exact ⟨_, hitem, h⟩
  -- a wildcard declares nothing
  | .any min max, name, typeRef => by
      rw [Particle.declared]
      refine iff_of_false List.not_mem_nil ?_
      intro h
      cases h

theorem mem_itemsDeclared : ∀ (items : List Particle) {name : QName} {typeRef : TypeRef},
    (name, typeRef) ∈ itemsDeclared items ↔ ∃ item ∈ items, item.Declares name typeRef
  | [], name, typeRef => by
      rw [itemsDeclared]
      refine iff_of_false List.not_mem_nil ?_
      rintro ⟨item, hitem, -⟩
      cases hitem
  | item :: items, name, typeRef => by
      rw [itemsDeclared, List.mem_append, mem_declared item, mem_itemsDeclared items,
        List.exists_mem_cons_iff]

end

/-- The declarations of a type. -/
def TypeDef.declared : TypeDef → List (QName × TypeRef)
  | .simple => []
  | .complex ct => ct.particle.elim [] Particle.declared

theorem collectType_eq (seen : Seen) (type : TypeDef) :
    collectType seen type = type.declared.foldl recordPair seen := by
  cases type with
  | simple => rfl
  | complex ct =>
    cases hparticle : ct.particle with
    | none => simp only [collectType, TypeDef.declared, hparticle, Option.elim_none, List.foldl_nil]
    | some particle =>
      simp only [collectType, TypeDef.declared, hparticle, Option.elim_some]
      exact collectElements_eq particle seen

theorem foldl_collectType (types : List TypeDef) (seen : Seen) :
    types.foldl collectType seen = (types.flatMap TypeDef.declared).foldl recordPair seen := by
  induction types generalizing seen with
  | nil => rfl
  | cons type types ih =>
    rw [List.foldl_cons, ih, collectType_eq, List.flatMap_cons, List.foldl_append]

namespace SchemaSet

/-- All declarations of a schema, in the order they are recorded. -/
def declared (schema : SchemaSet) : List (QName × TypeRef) :=
  schema.globalElements.map (fun e => (e.name, e.typeRef))
    ++ (schema.types.entries.map (·.2) ++ schema.anonymous).flatMap TypeDef.declared

theorem walkDeclarations_eq (schema : SchemaSet) :
    schema.walkDeclarations = schema.declared.foldl recordPair .empty := by
  unfold walkDeclarations declared
  dsimp only
  rw [foldl_collectType, List.foldl_append, List.foldl_map]
  rfl

theorem mem_declared {schema : SchemaSet} {name : QName} {typeRef : TypeRef} :
    (name, typeRef) ∈ schema.declared ↔ schema.Declares name typeRef := by
  unfold declared
  rw [List.mem_append, List.mem_map, List.mem_flatMap]
  constructor
  · rintro (⟨e, he, heq⟩ | ⟨type, htype, h⟩)
    · cases heq
      exact .global he
    · cases type with
      | simple => cases h
      | complex ct =>
        rw [TypeDef.declared] at h
        cases hparticle : ct.particle with
        | none =>
          rw [hparticle] at h
          cases h
        | some particle =>
          rw [hparticle] at h
          refine .inner ?_ hparticle ((Codegen.mem_declared particle).mp h)
          rcases List.mem_append.mp htype with htype | htype
          · obtain ⟨⟨q, _⟩, hentry, rfl⟩ := List.mem_map.mp htype
            exact .inl ⟨q, SortedMap.find?_eq_some.mpr hentry⟩
          · exact .inr htype
  · intro h
    cases h with
    | @global e he => exact .inl ⟨e, he, rfl⟩
    | @inner ct particle _ _ hct hparticle h =>
      refine .inr ⟨.complex ct, List.mem_append.mpr ?_, ?_⟩
      · rcases hct with ⟨q, hfind⟩ | hin
        · exact .inl (List.mem_map.mpr ⟨_, SortedMap.find?_eq_some.mp hfind, rfl⟩)
        · exact .inr hin
      · rw [TypeDef.declared, hparticle]
        exact (Codegen.mem_declared particle).mpr h

end SchemaSet

/-! ### What is recorded

What the table says of a name depends on the declarations of that name only. Three cases, kept by
each declaration that is recorded. -/

/-- What is known of a name after some declarations: nothing, the type all of them agree on, or that
two of them differ. -/
def Verdict (declared : List (QName × TypeRef)) (name : QName) : Option (Option TypeRef) → Prop
  | none => ∀ t, (name, t) ∉ declared
  | some (some t) => (name, t) ∈ declared ∧ ∀ t', (name, t') ∈ declared → t' = t
  | some none => ∃ t t', (name, t) ∈ declared ∧ (name, t') ∈ declared ∧ t ≠ t'

theorem Verdict.congr {declared declared' : List (QName × TypeRef)} {name : QName}
    {known : Option (Option TypeRef)} (h : Verdict declared name known)
    (hsame : ∀ t, (name, t) ∈ declared' ↔ (name, t) ∈ declared) : Verdict declared' name known := by
  cases known with
  | none => exact fun t ht => h t ((hsame t).mp ht)
  | some type =>
    cases type with
    | none =>
      obtain ⟨t, t', ht, ht', hne⟩ := h
      exact ⟨t, t', (hsame t).mpr ht, (hsame t').mpr ht', hne⟩
    | some t => exact ⟨(hsame t).mpr h.1, fun t' ht' => h.2 t' ((hsame t').mp ht')⟩

/-- One more declaration. Where two differ already, none can make them agree. -/
theorem verdict_record {declared : List (QName × TypeRef)} {seen : Seen} {name : QName}
    {typeRef : TypeRef} (h : ∀ name, Verdict declared name (seen.find? name)) (other : QName) :
    Verdict (declared ++ [(name, typeRef)]) other ((record seen name typeRef).find? other) := by
  unfold record
  rw [SortedMap.find?_alter]
  by_cases hother : other = name
  · subst hother
    rw [if_pos rfl]
    have hname := h other
    have hlast : (other, typeRef) ∈ declared ++ [(other, typeRef)] :=
      List.mem_append_right _ (List.mem_singleton_self _)
    have hcases : ∀ t, (other, t) ∈ declared ++ [(other, typeRef)] →
        (other, t) ∈ declared ∨ t = typeRef := by
      intro t ht
      rcases List.mem_append.mp ht with ht | ht
      · exact .inl ht
      · exact .inr (congrArg Prod.snd (List.mem_singleton.mp ht))
    -- by what was known of the name before
    cases hseen : seen.find? other with
    | none =>
      rw [hseen] at hname
      exact ⟨hlast, fun t ht => (hcases t ht).resolve_left (hname t)⟩
    | some known =>
      rw [hseen] at hname
      cases known with
      | none =>
        obtain ⟨t, t', ht, ht', hne⟩ := hname
        exact ⟨t, t', List.mem_append_left _ ht, List.mem_append_left _ ht', hne⟩
      | some t =>
        obtain ⟨ht, hagree⟩ := hname
        by_cases hsame : t = typeRef
        · subst hsame
          simp only [ne_eq, not_true_eq_false, if_false]
          exact ⟨hlast, fun t' ht' => (hcases t' ht').elim (hagree t') id⟩
        · simp only [ne_eq, Option.some.injEq, hsame, not_false_eq_true, if_true]
          exact ⟨t, typeRef, List.mem_append_left _ ht, hlast, hsame⟩
  -- what is known of another name stays
  · rw [if_neg hother]
    refine (h other).congr fun t => ?_
    rw [List.mem_append, List.mem_singleton, Prod.mk.injEq]
    exact or_iff_left fun heq => hother heq.1

theorem verdict_foldl (declared : List (QName × TypeRef)) (name : QName) :
    Verdict declared name ((declared.foldl recordPair .empty).find? name) := by
  induction declared using List.reverseRecOn generalizing name with
  | nil => exact fun t => List.not_mem_nil
  | append_singleton declared d ih =>
    rw [List.foldl_append]
    exact verdict_record ih name

theorem SchemaSet.verdict (schema : SchemaSet) (name : QName) :
    Verdict schema.declared name (schema.walkDeclarations.find? name) := by
  rw [walkDeclarations_eq]
  exact verdict_foldl schema.declared name

/-- **The fragment table is complete and never guesses.** It has the names that are declared, in
order and each once, and binds a name to a type exactly when all of its declarations have it. -/
theorem SchemaSet.declared_exactly (schema : SchemaSet) :
    schema.declaredElementQnames.Pairwise (· < ·)
      ∧ (∀ name, name ∈ schema.declaredElementQnames ↔ ∃ t, schema.Declares name t)
      ∧ ∀ name t, schema.declaredElements.find? name = some t
        ↔ (∃ t', schema.Declares name t') ∧ ∀ t', schema.Declares name t' → t' = t := by
  simp only [← mem_declared]
  refine ⟨schema.walkDeclarations.keys_sorted, fun name => ?_, fun name t => ?_⟩
  -- a name is listed as soon as one declaration has it
  · have hverdict := schema.verdict name
    unfold declaredElementQnames
    rw [SortedMap.mem_keys]
    cases hfind : schema.walkDeclarations.find? name with
    | none =>
      rw [hfind] at hverdict
      exact iff_of_false (by rintro ⟨a, ha⟩; cases ha) fun ⟨t, ht⟩ => hverdict t ht
    | some known =>
      rw [hfind] at hverdict
      refine iff_of_true ⟨known, rfl⟩ ?_
      cases known with
      | none =>
        obtain ⟨t, -, ht, -⟩ := hverdict
        exact ⟨t, ht⟩
      | some t => exact ⟨t, hverdict.1⟩
  -- it is given a type when all of them agree
  · have hverdict := schema.verdict name
    unfold declaredElements
    rw [SortedMap.find?_filterMap]
    cases hfind : schema.walkDeclarations.find? name with
    | none =>
      rw [hfind] at hverdict
      exact iff_of_false nofun fun ⟨⟨t', ht'⟩, _⟩ => hverdict t' ht'
    | some known =>
      rw [hfind] at hverdict
      cases known with
      | none =>
        obtain ⟨t₁, t₂, h₁, h₂, hne⟩ := hverdict
        refine iff_of_false nofun fun ⟨_, hall⟩ => hne ?_
        rw [hall t₁ h₁, hall t₂ h₂]
      | some t' =>
        obtain ⟨ht', hagree⟩ := hverdict
        rw [Option.bind_some, id, Option.some.injEq]
        constructor
        · rintro rfl
          exact ⟨⟨t', ht'⟩, hagree⟩
        · exact fun h => h.2 t' ht'

end Iso15118.Codegen
