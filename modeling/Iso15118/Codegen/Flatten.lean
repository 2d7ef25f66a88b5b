import Iso15118.Codegen.ContentModel
import Iso15118.Codegen.Layout
import Iso15118.Lib.Blocks

/-!
# From content models to layouts

A layout comes from a list of items, and the items from a complex type: its attributes, then its
character data, or its content model without the nesting (`flatten`). What an item stands for in the
grammar of the type is a block of events (`Particle.blocks`); **`whole_flatten`** says that the
blocks are all there is to a content model that can be flattened.
-/

open Computability

namespace Iso15118.Codegen

open Lib

/-! ## The items of a type

The content model without its nesting. Whatever an item cannot express is an error, and so is a
type whose derivations are too deep. -/

/-- The field made of an element. -/
def ElementParticle.field (e : ElementParticle) : Field := ⟨e.name, e.typeRef, e.min, e.max⟩

/-- The field made of an attribute. -/
def Attribute.field (a : Attribute) : Field := ⟨a.name, a.typeRef, a.required.toNat, 1⟩

/-- One alternative of a choice, in `flatten`. -/
def Particle.branch : Particle → Except LayoutError Branch
  | .element e => .ok (.element e.field)
  | .any _ _ => .ok .wildcard
  | _ => .error (.unsupported "choice branch that is not an element")

/-- `branches.sort_by_key(|b| matches!(b, Branch::Wildcard))`, which keeps the order there is
otherwise. -/
def sortBranches (branches : List Branch) : List Branch :=
  branches.filter (· ≠ .wildcard) ++ branches.filter (· = .wildcard)

mutual

/-- `flatten`. -/
def flatten : Particle → Except LayoutError (List Item)
  | .element e => .ok [.element e.field]
  | .sequence items min max =>
      if min ≠ 1 ∨ max ≠ 1 then
        .error (.unsupported "sequence group with occurrence bounds")
      else flattenAll items
  | .choice items min max => do
      let branches ← items.mapM Particle.branch
      .ok [.choice (sortBranches branches) min max]
  | .all _ _ _ => .error (.unsupported "xs:all")
  | .any min max => .ok [.wildcard min max]

def flattenAll : List Particle → Except LayoutError (List Item)
  | [] => .ok []
  | item :: items => do
      let first ← flatten item
      let rest ← flattenAll items
      .ok (first ++ rest)

end

/-- `collect`, by how many more levels of derivation are looked at. -/
def collect (schema : Schema) : Nat → ComplexType → Except LayoutError (List Item)
  | 0, _ => .error (.unsupported "cyclic type derivation")
  | levels + 1, ct => do
      let inherited ← (match ct.derivation, schema.baseOf ct with
        | .extension, some base => collect schema levels base
        | _, _ => .ok [])
      let own ← (match ct.particle with
        | some particle => flatten particle
        | none => .ok [])
      .ok (inherited ++ own)

/-- `collect_attributes`: that of the grammar, with an error of its own. -/
def collectAttributes (schema : Schema) (ct : ComplexType) :
    Except LayoutError (List Attribute) :=
  (Builder.collectAttributes schema Builder.derivationLevels ct).mapError fun _ =>
    .unsupported "cyclic type derivation"

/-- The items behind the attributes. -/
def contentItems (schema : Schema) (ct : ComplexType) : Except LayoutError (List Item) :=
  match ct.simpleContent with
  | some simple => .ok [.characters (.named simple)]
  | none => collect schema Builder.derivationLevels ct

/-- `Layout::of`. -/
def Layout.of (schema : Schema) (ct : ComplexType) : Except LayoutError Layout := do
  let attributes ← collectAttributes schema ct
  let content ← contentItems schema ct
  compute (attributes.map (fun a => .attribute a.field) ++ content) attributes.length ct.mixed

/-! ## What an item expects of the grammar

The check compares each event of the grammar with what the item expects in its place. An event
that is expected in one place is not expected in another. -/

/-- `Expected`. -/
inductive Expected where
  | named (name : QName)
  | attribute (name : QName)
  | characters
  | wildcard
  deriving DecidableEq, Repr

/-- What a branch of a choice expects. -/
def Branch.expected : Branch → Expected
  | .element f => .named f.name
  | .wildcard => .wildcard

/-- `expected_events`. -/
def expectedEvents : Item → List Expected
  | .element f => [.named f.name]
  | .attribute f => [.attribute f.name]
  | .characters _ => [.characters]
  | .wildcard _ _ => [.wildcard]
  | .choice branches _ _ => branches.map Branch.expected

/-- `event_matches`. -/
def eventMatches : Expected → Event → Bool
  | .named q, .startElement name _ _ => q = name
  | .attribute q, .attribute name _ => q = name
  | .characters, .characters _ => true
  | .wildcard, .wildcard => true
  | _, _ => false

/-- An event is not what two are expected to be. -/
theorem eventMatches_unique {x y : Expected} {e : Event} (hx : eventMatches x e = true)
    (hy : eventMatches y e = true) : x = y := by
  cases e <;> cases x <;> cases y <;> simp_all [eventMatches]

theorem length_expectedEvents (item : Item) :
    (expectedEvents item).length = item.productions := by
  cases item with
  | choice branches min max => exact List.length_map _
  | _ => rfl

/-! ## What an item stands for in the grammar

Items and blocks are made of the same particles, one by the layout and one for the grammar. Both
sort the branches of a choice the same way. -/

/-- The bound of so many occurrences. -/
def boundOf (max : Nat) : Option Nat := if max = unbounded then none else some max

/-- The event of a branch of a choice. -/
def Particle.letter : Particle → Event
  | .element e => e.event
  | _ => .wildcard

/-- The events of the branches of a choice, in the order of their codes. -/
def letters (branches : List Particle) : List Event :=
  (branches.map Particle.letter).filter (· ≠ .wildcard)
    ++ (branches.map Particle.letter).filter (· = .wildcard)

mutual

/-- The blocks that instances of a content model are made of. -/
def Particle.blocks : Particle → List (Block Event)
  | .element e => [⟨[e.event], e.min, boundOf e.max⟩]
  | .any min max => [⟨[.wildcard], min, boundOf max⟩]
  | .sequence items _ _ => blocksOf items
  | .choice items min max => [⟨letters items, min, boundOf max⟩]
  | .all _ _ _ => []

def blocksOf : List Particle → List (Block Event)
  | [] => []
  | item :: items => item.blocks ++ blocksOf items

end

/-- The block of an attribute. -/
def Attribute.block (a : Attribute) : Block Event :=
  ⟨[.attribute a.name a.typeRef], a.required.toNat, some 1⟩

/-- An item and the block it stands for: the same occurrences, and an event for each of its codes
that is the one expected there. -/
structure Item.Shows (item : Item) (b : Block Event) : Prop where
  min : b.min = item.min
  max : b.max = boundOf item.max
  letters : List.Forall₂ (fun x e => eventMatches x e = true) (expectedEvents item) b.letters

section Shows

variable {item : Item} {b : Block Event}

theorem Item.Shows.length (h : item.Shows b) : b.letters.length = item.productions := by
  rw [← h.letters.length_eq, length_expectedEvents]

theorem Attribute.shows (a : Attribute) : (Item.attribute a.field).Shows a.block where
  min := rfl
  max := rfl
  letters := .cons (decide_eq_true rfl) .nil

theorem shows_characters (typeRef : TypeRef) :
    (Item.characters typeRef).Shows ⟨[.characters typeRef], 1, some 1⟩ where
  min := rfl
  max := rfl
  letters := .cons rfl .nil

end Shows

/-- What is expected of a branch and what its event is. -/
theorem expected_of_branch {p : Particle} {b : Branch} (h : p.branch = .ok b) :
    eventMatches b.expected p.letter = true ∧ (b = .wildcard ↔ p.letter = .wildcard) := by
  cases p with
  | element e =>
    cases h
    exact ⟨decide_eq_true rfl, by simp [Particle.letter, ElementParticle.event]⟩
  | any min max =>
    cases h
    exact ⟨rfl, by simp [Particle.letter]⟩
  | sequence items min max => cases h
  | choice items min max => cases h
  | all items min max => cases h

/-- Branches and their events are sorted the same way. -/
theorem matches_sortBranches {items : List Particle} {branches : List Branch}
    (h : items.mapM Particle.branch = .ok branches) :
    List.Forall₂ (fun x e => eventMatches x e = true) ((sortBranches branches).map Branch.expected)
      (letters items) := by
  have hall := mapM_eq_ok.mp h
  clear h
  have hpart : ∀ keep : Bool, List.Forall₂ (fun x e => eventMatches x e = true)
      ((branches.filter (fun b => (decide (b = .wildcard)) == keep)).map Branch.expected)
      ((items.map Particle.letter).filter fun e => (decide (e = .wildcard)) == keep) := by
    intro keep
    induction hall with
    | nil => exact .nil
    | @cons p b ps bs hb _ ih =>
      obtain ⟨hmatch, hwild⟩ := expected_of_branch hb
      have hsame : decide (b = .wildcard) = decide (p.letter = .wildcard) :=
        decide_eq_decide.mpr hwild
      rw [List.map_cons, List.filter_cons, List.filter_cons, hsame]
      split
      · exact .cons hmatch ih
      · exact ih
  have hdeclared := hpart false
  have hwild := hpart true
  simp only [beq_true, beq_false] at hdeclared hwild
  rw [sortBranches, letters, List.map_append]
  simp only [ne_eq, decide_not]
  exact List.rel_append (R := fun x e => eventMatches x e = true) hdeclared hwild

mutual

/-- Item by item, what a content model is flattened to shows its blocks. -/
theorem shows_flatten : ∀ (p : Particle) {items : List Item}, flatten p = .ok items →
    List.Forall₂ Item.Shows items p.blocks
  | .element e, _, h => by
      cases h
      exact .cons ⟨rfl, rfl, .cons (decide_eq_true rfl) .nil⟩ .nil
  | .any min max, _, h => by
      cases h
      exact .cons ⟨rfl, rfl, .cons rfl .nil⟩ .nil
  | .sequence items min max, _, h => by
      rw [flatten] at h
      split at h
      · cases h
      · exact shows_flattenAll items h
  | .choice items min max, _, h => by
      obtain ⟨branches, hbranches, hlast⟩ := bind_eq_ok.mp h
      cases hlast
      exact .cons ⟨rfl, rfl, matches_sortBranches hbranches⟩ .nil
  | .all _ _ _, _, h => by cases h

theorem shows_flattenAll : ∀ (ps : List Particle) {items : List Item}, flattenAll ps = .ok items →
    List.Forall₂ Item.Shows items (blocksOf ps)
  | [], _, h => by
      cases h
      exact .nil
  | p :: ps, _, h => by
      obtain ⟨first, hfirst, h⟩ := bind_eq_ok.mp h
      obtain ⟨rest, hrest, hlast⟩ := bind_eq_ok.mp h
      cases hlast
      exact List.rel_append (R := Item.Shows) (shows_flatten p hfirst) (shows_flattenAll ps hrest)

end

/-! ## The language of a flattened content model

The content model as a language is that of its blocks. Since nothing that leads back shares its
state there, its shape spells that language and no more. -/

mutual

/-- The branches of choices occur once. -/
def Particle.BranchesOnce : Particle → Prop
  | .element _ | .any _ _ | .all _ _ _ => True
  | .sequence items _ _ => BranchesOnces items
  | .choice items _ _ => ∀ p ∈ items, p.min = 1 ∧ p.max = 1

def BranchesOnces : List Particle → Prop
  | [] => True
  | item :: items => item.BranchesOnce ∧ BranchesOnces items

end

/-- Bounds that the grammar keeps and the layout has codes for. -/
structure Item.Regular (item : Item) : Prop where
  unrolled : Unrolled item.min item.max
  occurs : 0 < item.max
  productions : 0 < item.productions
  single : item.max ≤ 1 ∨ item.productions = 1

theorem unrolled_one : Unrolled 1 1 := ⟨le_rfl, by decide, .inr (by decide)⟩

theorem repetition_one (l : Language Event) : repetition l 1 1 = l := by
  ext w
  constructor
  · rintro ⟨n, hmin, hmax, hw⟩
    have hone : n = 1 := by
      have hle := hmax.resolve_left (by decide)
      omega
    rwa [hone, pow_one] at hw
  · exact fun hw => ⟨1, le_rfl, .inr le_rfl, by rwa [pow_one]⟩

/-- So many occurrences of one of the events are a block. -/
theorem repetition_letters (es : List Event) (min max : Nat) :
    repetition (Block.one es) min max = Block.words ⟨es, min, boundOf max⟩ := by
  have hbound : ∀ n : Nat, (max = unbounded ∨ n ≤ max) ↔ ∀ m ∈ boundOf max, n ≤ m := by
    intro n
    unfold boundOf
    split <;> simp [*]
  ext w
  constructor
  · rintro ⟨n, hmin, hmax, hw⟩
    obtain ⟨rfl, hall⟩ := Block.mem_pow_letters.mp hw
    exact ⟨hmin, (hbound _).mp hmax, hall⟩
  · rintro ⟨hmin, hmax, hall⟩
    exact ⟨w.length, hmin, (hbound _).mpr hmax, Block.mem_pow_letters.mpr ⟨rfl, hall⟩⟩

theorem singleton_eq_letters (e : Event) :
    ({[e]} : Language Event) = Block.one [e] := by
  ext v
  constructor
  · exact fun h => ⟨e, List.mem_singleton_self e, h⟩
  · rintro ⟨e', he, rfl⟩
    rw [List.mem_singleton.mp he]
    exact Set.mem_singleton _

theorem mem_letters {items : List Particle} {e : Event} :
    e ∈ letters items ↔ e ∈ items.map Particle.letter := by
  rw [letters, List.mem_append, List.mem_filter, List.mem_filter, ← and_or_left]
  refine and_iff_left ?_
  by_cases he : e = .wildcard <;> simp [he]

/-- Branches that are elements or wildcards, each once. -/
theorem branches_once {items : List Particle} {branches : List Branch}
    (h : items.mapM Particle.branch = .ok branches) (honce : ∀ p ∈ items, p.min = 1 ∧ p.max = 1) :
    Plains items ∧ separates items = true ∧ anyReenters items = false
      ∧ choiceLanguage items = Block.one (items.map Particle.letter) := by
  have hall := mapM_eq_ok.mp h
  clear h
  induction hall with
  | nil =>
    refine ⟨trivial, rfl, rfl, ?_⟩
    ext v
    constructor
    · exact fun h => absurd h (Language.notMem_zero v)
    · rintro ⟨e, he, -⟩
      cases he
  | @cons p b ps bs hb _ ih =>
    obtain ⟨hplain, hseparate, hreenters, hlanguage⟩ :=
      ih fun q hq => honce q (List.mem_cons_of_mem _ hq)
    obtain ⟨hmin, hmax⟩ := honce p List.mem_cons_self
    -- the first branch is an element or a wildcard, once
    have hone : p.Plain ∧ p.separate = true ∧ p.reenters = false ∧ p.language = {[p.letter]} := by
      cases p with
      | element e =>
        have hmin' : e.min = 1 := hmin
        have hmax' : e.max = 1 := hmax
        refine ⟨?_, rfl, ?_, ?_⟩
        · show Unrolled e.min e.max
          rw [hmin', hmax']
          exact unrolled_one
        · simp [Particle.reenters, hmin']
        · rw [Particle.language, hmin', hmax', repetition_one]
          rfl
      | any min max =>
        have hmin' : min = 1 := hmin
        have hmax' : max = 1 := hmax
        refine ⟨?_, rfl, ?_, ?_⟩
        · show Unrolled min max
          rw [hmin', hmax']
          exact unrolled_one
        · simp [Particle.reenters, hmin']
        · rw [Particle.language, hmin', hmax', repetition_one]
          rfl
      | sequence items min max => cases hb
      | choice items min max => cases hb
      | all items min max => cases hb
    -- and what holds of it and of the others holds of all
    refine ⟨⟨hone.1, hplain⟩, ?_, ?_, ?_⟩
    · rw [separates, hone.2.1, hseparate]
      rfl
    · rw [anyReenters, hone.2.2.1, hreenters]
      rfl
    · rw [choiceLanguage, hone.2.2.2, hlanguage]
      ext v
      constructor
      · rintro (h | ⟨e, he, rfl⟩)
        · exact ⟨p.letter, List.mem_cons_self, h⟩
        · exact ⟨e, List.mem_cons_of_mem _ he, rfl⟩
      · rintro ⟨e, he, rfl⟩
        rcases List.mem_cons.mp he with rfl | he
        · exact .inl rfl
        · exact .inr ⟨e, he, rfl⟩

mutual

/-- A content model that can be flattened is compiled to what its blocks are. -/
theorem language_flatten : ∀ (p : Particle) {items : List Item}, flatten p = .ok items →
    p.BranchesOnce → (∀ item ∈ items, item.Regular) →
    p.Plain ∧ p.separate = true ∧ p.language = Block.content p.blocks
  | .element e, _, h, _, hregular => by
      cases h
      refine ⟨(hregular _ List.mem_cons_self).unrolled, rfl, ?_⟩
      show repetition {[e.event]} e.min e.max = Block.words _ * 1
      rw [mul_one, singleton_eq_letters, repetition_letters]
  | .any min max, _, h, _, hregular => by
      cases h
      refine ⟨(hregular _ List.mem_cons_self).unrolled, rfl, ?_⟩
      show repetition {[.wildcard]} min max = Block.words _ * 1
      rw [mul_one, singleton_eq_letters, repetition_letters]
  -- a sequence is flattened only when it occurs once
  | .sequence items min max, _, h, honce, hregular => by
      rw [flatten] at h
      split at h
      · cases h
      · next hbounds =>
        obtain ⟨rfl, rfl⟩ : min = 1 ∧ max = 1 := by omega
        obtain ⟨hplain, hseparate, hlanguage⟩ := language_flattenAll items h honce hregular
        refine ⟨⟨unrolled_one, hplain⟩, ?_, ?_⟩
        · rw [Particle.separate, hseparate]
          rfl
        · rw [Particle.language, repetition_one]
          exact hlanguage
  -- the branches of a choice are one letter each
  | .choice items min max, _, h, honce, hregular => by
      obtain ⟨branches, hbranches, hlast⟩ := bind_eq_ok.mp h
      cases hlast
      obtain ⟨hplain, hseparate, hreenters, hlanguage⟩ := branches_once hbranches honce
      refine ⟨⟨(hregular _ List.mem_cons_self).unrolled, hplain⟩, ?_, ?_⟩
      · rw [Particle.separate, hseparate, hreenters]
        simp
      · have hletters : Block.one (items.map Particle.letter) = Block.one (letters items) := by
          ext v
          exact exists_congr fun e => and_congr_left' mem_letters.symm
        show repetition (choiceLanguage items) min max = Block.words _ * 1
        rw [mul_one, hlanguage, hletters, repetition_letters]
  | .all _ _ _, _, h, _, _ => by cases h

theorem language_flattenAll : ∀ (ps : List Particle) {items : List Item},
    flattenAll ps = .ok items → BranchesOnces ps → (∀ item ∈ items, item.Regular) →
    Plains ps ∧ separates ps = true ∧ sequenceLanguage ps = Block.content (blocksOf ps)
  | [], _, _, _, _ => ⟨trivial, rfl, rfl⟩
  | p :: ps, _, h, honce, hregular => by
      obtain ⟨first, hfirst, h⟩ := bind_eq_ok.mp h
      obtain ⟨rest, hrest, hlast⟩ := bind_eq_ok.mp h
      cases hlast
      obtain ⟨hplain, hseparate, hlanguage⟩ := language_flatten p hfirst honce.1
        fun item hitem => hregular item (List.mem_append_left _ hitem)
      obtain ⟨hplains, hseparates, hlanguages⟩ := language_flattenAll ps hrest honce.2
        fun item hitem => hregular item (List.mem_append_right _ hitem)
      refine ⟨⟨hplain, hplains⟩, ?_, ?_⟩
      · rw [separates, hseparate, hseparates]
        rfl
      · rw [sequenceLanguage, blocksOf, Block.content_append, hlanguage, hlanguages]

end

/-- What the automaton of a flattened content model spells. -/
theorem whole_flattenAll {ps : List Particle} {items : List Item} (h : flattenAll ps = .ok items)
    (honce : BranchesOnces ps) (hregular : ∀ item ∈ items, item.Regular) :
    (sequenceShape ps).whole = Block.content (blocksOf ps) := by
  obtain ⟨hplain, hseparate, hlanguage⟩ := language_flattenAll ps h honce hregular
  rw [← hlanguage]
  exact le_antisymm (sequenceShape_le_language ps hplain hseparate)
    (sequenceLanguage_le_shape ps hplain)

end Iso15118.Codegen
