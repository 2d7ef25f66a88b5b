import Mathlib.Data.String.Basic
import Iso15118.Codegen.ContentModel
import Iso15118.Codegen.Determinise

/-!
# What a derived grammar accepts

A grammar should spell the valid instances of its type: the attributes in the order of their names,
of which only optional ones are left out, and then character data or a word of the content model.

* **`spells_complexType_iff`** — what it spells: the attributes, and then the shape of the content;
* **`accepts_instances_iff`** — the grammar spells the valid instances if and only if the rounds of
  the content model add no word, which is so if no particle that leads back to the state it starts
  from shares it.
-/

open Computability

namespace Iso15118.Codegen

open Lib

/-! ## Valid instances

What the schema permits, said of derivations and not of how they are looked up: a type has the
attributes of its base besides its own, and an extension has its base's particles first. -/

/-- The attributes a type declares or inherits. -/
inductive Declares (schema : Schema) : ComplexType → Attribute → Prop where
  | own {ct : ComplexType} {a : Attribute} (h : a ∈ ct.attributes) : Declares schema ct a
  | inherited {ct base : ComplexType} {a : Attribute} (hb : schema.baseOf ct = some base)
      (h : Declares schema base a) : Declares schema ct a

/-- The particles of a type: those of its base before its own, if it extends the base. -/
inductive HasContent (schema : Schema) : ComplexType → List Particle → Prop where
  | own {ct : ComplexType} (h : ct.derivation = .extension → schema.baseOf ct = none) :
      HasContent schema ct ct.particle.toList
  | extension {ct base : ComplexType} {ps : List Particle} (hd : ct.derivation = .extension)
      (hb : schema.baseOf ct = some base) (h : HasContent schema base ps) :
      HasContent schema ct (ps ++ ct.particle.toList)

/-- Attributes in the order of their names, of which none is left out that is required. -/
structure Chosen (schema : Schema) (ct : ComplexType) (as : List Attribute) : Prop where
  sorted : as.Pairwise fun a b => a.name.le b.name ∧ a.name ≠ b.name
  declared : ∀ a ∈ as, Declares schema ct a
  required : ∀ a, Declares schema ct a → a.required → a ∈ as

/-- The event sequences the content of a type may have. -/
def contentLanguage (schema : Schema) (ct : ComplexType) : Language Event :=
  match ct.simpleContent with
  | some simple => {[.characters (.named simple)]}
  | none => {w | ∃ ps, HasContent schema ct ps ∧ w ∈ sequenceLanguage ps}

/-- The event sequences of the valid instances of a type. -/
def Instance (schema : Schema) (ct : ComplexType) (w : List Event) : Prop :=
  ∃ as v, Chosen schema ct as ∧ v ∈ contentLanguage schema ct
    ∧ w = as.map Builder.attributeEvent ++ v

/-! ## The attributes collected

The collection is sorted, and of several attributes with one name the first stays. Where
declarations of one name agree it makes no difference which. -/

section Names

variable {a b c : QName}

theorem QName.le_iff : a.le b = true ↔ a.localName < b.localName
    ∨ (a.localName = b.localName ∧ a.namespaceName ≤ b.namespaceName) := by
  simp [QName.le]

theorem QName.trans (h : a.le b = true) (h' : b.le c = true) : a.le c = true := by
  rw [QName.le_iff] at *
  rcases h with h | ⟨h, hn⟩
  · rcases h' with h' | ⟨h', _⟩
    · exact Or.inl (h.trans h')
    · exact Or.inl (h' ▸ h)
  · rcases h' with h' | ⟨h', hn'⟩
    · exact Or.inl (h ▸ h')
    · exact Or.inr ⟨h.trans h', hn.trans hn'⟩

theorem QName.total (a b : QName) : a.le b = true ∨ b.le a = true := by
  rw [QName.le_iff, QName.le_iff]
  rcases lt_trichotomy a.localName b.localName with hlt | heq | hgt
  · exact Or.inl (Or.inl hlt)
  · exact (le_total a.namespaceName b.namespaceName).imp (fun h => Or.inr ⟨heq, h⟩)
      fun h => Or.inr ⟨heq.symm, h⟩
  · exact Or.inr (Or.inl hgt)

theorem QName.antisymm (h : a.le b = true) (h' : b.le a = true) : a = b := by
  rw [QName.le_iff] at h h'
  rcases h with h | ⟨h, hn⟩
  · rcases h' with h' | ⟨h', _⟩
    · exact absurd h' (lt_asymm h)
    · exact absurd h (by rw [h']; exact lt_irrefl _)
  · rcases h' with h' | ⟨_, hn'⟩
    · exact absurd h' (by rw [h]; exact lt_irrefl _)
    · cases a
      cases b
      rw [QName.mk.injEq]
      exact ⟨h, le_antisymm hn hn'⟩

end Names

namespace Builder

/-- In order, and no name twice. -/
def Ordered (as : List Attribute) : Prop :=
  as.Pairwise fun a b => a.name.le b.name ∧ a.name ≠ b.name

theorem mem_dedupAfter {a x : Attribute} {l : List Attribute} (h : x ∈ dedupAfter a l) :
    x ∈ a :: l := by
  induction l generalizing a with
  | nil => exact h
  | cons b rest ih =>
      rw [dedupAfter] at h
      split at h
      · rcases List.mem_cons.mp (ih h) with rfl | hx
        · exact List.mem_cons_self
        · exact List.mem_cons_of_mem _ (List.mem_cons_of_mem _ hx)
      · rcases List.mem_cons.mp h with rfl | hx
        · exact List.mem_cons_self
        · exact List.mem_cons_of_mem _ (ih hx)

/-- Every name there is stays. -/
theorem name_dedupAfter {a x : Attribute} {l : List Attribute} (h : x ∈ a :: l) :
    ∃ y ∈ dedupAfter a l, y.name = x.name := by
  induction l generalizing a x with
  | nil => exact ⟨x, h, rfl⟩
  | cons b rest ih =>
      rw [dedupAfter]
      split
      · rename_i hsame
        rcases List.mem_cons.mp h with rfl | h
        · exact ih List.mem_cons_self
        · rcases List.mem_cons.mp h with rfl | h
          · obtain ⟨y, hy, hname⟩ := ih (List.mem_cons_self (a := a))
            exact ⟨y, hy, hname.trans hsame.symm⟩
          · exact ih (List.mem_cons_of_mem _ h)
      · rcases List.mem_cons.mp h with rfl | h
        · exact ⟨x, List.mem_cons_self, rfl⟩
        · obtain ⟨y, hy, hname⟩ := ih h
          exact ⟨y, List.mem_cons_of_mem _ hy, hname⟩

theorem ordered_dedupAfter {a : Attribute} {l : List Attribute}
    (h : (a :: l).Pairwise fun a b => a.name.le b.name = true) : Ordered (dedupAfter a l) := by
  induction l generalizing a with
  | nil => exact List.pairwise_singleton _ _
  | cons b rest ih =>
      obtain ⟨ha, hb⟩ := List.pairwise_cons.mp h
      obtain ⟨hb', hrest⟩ := List.pairwise_cons.mp hb
      rw [dedupAfter]
      split
      · exact ih (List.pairwise_cons.mpr ⟨fun x hx => ha x (List.mem_cons_of_mem _ hx), hrest⟩)
      · rename_i hne
        refine List.pairwise_cons.mpr ⟨fun x hx => ?_, ih hb⟩
        have hin := mem_dedupAfter hx
        refine ⟨ha x hin, fun heq => hne ?_⟩
        -- a later attribute of the same name would have one of another name before it
        rcases List.mem_cons.mp hin with rfl | hx
        · exact heq.symm
        · exact QName.antisymm (heq ▸ hb' x hx) (ha b List.mem_cons_self)

/-- What `sort_by` and `dedup_by` leave. -/
theorem dedup_sorted_spec (as : List Attribute) :
    Ordered (dedup (as.insertionSort fun a b => a.name.le b.name)) ∧
      (∀ a ∈ dedup (as.insertionSort fun a b => a.name.le b.name), a ∈ as) ∧
      ∀ a ∈ as, ∃ b ∈ dedup (as.insertionSort fun a b => a.name.le b.name), b.name = a.name := by
  have : Std.Total fun a b : Attribute => a.name.le b.name = true :=
    ⟨fun a b => QName.total a.name b.name⟩
  have : IsTrans Attribute fun a b => a.name.le b.name = true := ⟨fun _ _ _ => QName.trans⟩
  have hsorted := List.pairwise_insertionSort (fun a b : Attribute => a.name.le b.name = true) as
  have hmem : ∀ a, a ∈ as.insertionSort (fun a b => a.name.le b.name) ↔ a ∈ as :=
    fun a => List.mem_insertionSort _
  generalize as.insertionSort (fun a b => a.name.le b.name) = l at hsorted hmem
  cases l with
  | nil =>
      refine ⟨List.Pairwise.nil, fun a h => absurd h List.not_mem_nil, fun a h => ?_⟩
      exact absurd ((hmem a).mpr h) List.not_mem_nil
  | cons a l =>
      exact ⟨ordered_dedupAfter hsorted, fun x hx => (hmem x).mp (mem_dedupAfter hx),
        fun x hx => name_dedupAfter ((hmem x).mpr hx)⟩

/-- One of each name declared or inherited is collected, in order. -/
theorem collectAttributes_spec {schema : Schema} {levels : Nat} {ct : ComplexType}
    {as : List Attribute} (h : collectAttributes schema levels ct = .ok as) :
    Ordered as ∧ (∀ a ∈ as, Declares schema ct a) ∧
      ∀ a, Declares schema ct a → ∃ b ∈ as, b.name = a.name := by
  -- induction on the depth of the derivation that is looked into
  induction levels generalizing ct as with
  | zero => cases h
  | succ levels ih =>
      obtain ⟨inherited, hinherited, hlast⟩ := bind_eq_ok.mp h
      cases hlast
      obtain ⟨hordered, hfrom, hevery⟩ := dedup_sorted_spec (inherited ++ ct.attributes)
      cases hbase : schema.baseOf ct with
      | none =>
          rw [hbase] at hinherited
          cases hinherited
          refine ⟨hordered, fun a ha => ?_, fun a ha => ?_⟩
          · rcases List.mem_append.mp (hfrom a ha) with ha | ha
            · exact absurd ha List.not_mem_nil
            · exact .own ha
          · cases ha with
            | own ha => exact hevery a (List.mem_append_right _ ha)
            | inherited hb _ => exact absurd (hbase.symm.trans hb) (by simp)
      | some base =>
          rw [hbase] at hinherited
          obtain ⟨_, hdeclares, hall⟩ := ih hinherited
          refine ⟨hordered, fun a ha => ?_, fun a ha => ?_⟩
          · rcases List.mem_append.mp (hfrom a ha) with ha | ha
            · exact .inherited hbase (hdeclares a ha)
            · exact .own ha
          · cases ha with
            | own ha => exact hevery a (List.mem_append_right _ ha)
            -- an attribute of the base may have been declared again, under the same name
            | inherited hb ha =>
                obtain rfl := Option.some.inj (hbase.symm.trans hb)
                obtain ⟨b, hb, hname⟩ := hall a ha
                obtain ⟨c, hc, hname'⟩ := hevery b (List.mem_append_left _ hb)
                exact ⟨c, hc, hname'.trans hname⟩

/-- Where declarations of one name agree, the attributes of an instance are a choice among those
collected. -/
theorem chosen_iff {schema : Schema} {ct : ComplexType} {attributes as : List Attribute}
    (hagree : ∀ a b, Declares schema ct a → Declares schema ct b → a.name = b.name → a = b)
    (h : collectAttributes schema derivationLevels ct = .ok attributes) :
    Chosen schema ct as ↔ as.Sublist attributes ∧ ∀ a ∈ attributes, a.required → a ∈ as := by
  obtain ⟨hordered, hdeclares, hall⟩ := collectAttributes_spec h
  have hmem : ∀ a, Declares schema ct a → a ∈ attributes := by
    intro a ha
    obtain ⟨b, hb, hname⟩ := hall a ha
    rwa [← hagree b a (hdeclares b hb) ha hname]
  constructor
  · intro hc
    refine ⟨?_, fun a ha hreq => hc.required a (hdeclares a ha) hreq⟩
    have hnodup : as.Nodup := by
      refine hc.sorted.imp ?_
      intro a b hab heq
      exact hab.2 (by rw [heq])
    have hsub : as.Subperm attributes :=
      hnodup.subperm fun a ha => hmem a (hc.declared a ha)
    have : Std.Antisymm fun a b : Attribute => a.name.le b.name = true ∧ a.name ≠ b.name :=
      ⟨fun a b hab hba => absurd (QName.antisymm hab.1 hba.1) hab.2⟩
    exact List.sublist_of_subperm_of_pairwise hsub hc.sorted hordered
  · rintro ⟨hsub, hreq⟩
    exact ⟨hordered.sublist hsub, fun a ha => hdeclares a (hsub.subset ha),
      fun a ha => hreq a (hmem a ha)⟩

theorem whole_attributeShape (a : Attribute) :
    (attributeShape a).whole
      = if a.required then {[attributeEvent a]} else 1 + {[attributeEvent a]} := by
  unfold attributeShape
  split
  · exact Loop.whole_edge_some _
  · rw [Loop.whole_eq_out bot_le]
    rfl

/-- A choice among the attributes, and then what follows. -/
theorem mem_prefixShape_iff {attributes : List Attribute} (hordered : Ordered attributes)
    {l : Loop Event} {w : List Event} :
    w ∈ (prefixShape attributes l).whole ↔ ∃ (as : List Attribute) (v : List Event),
      as.Sublist attributes
      ∧ (∀ a ∈ attributes, a.required → a ∈ as) ∧ v ∈ l.whole
      ∧ w = as.map attributeEvent ++ v := by
  induction attributes generalizing w with
  | nil =>
      constructor
      · exact fun hw => ⟨[], w, List.Sublist.refl _, by simp, hw, rfl⟩
      · rintro ⟨as, v, hsub, _, hv, rfl⟩
        obtain rfl := List.sublist_nil.mp hsub
        exact hv
  | cons a rest ih =>
      obtain ⟨hfirst, hrest⟩ := List.pairwise_cons.mp hordered
      have hnot : a ∉ rest := fun hin => (hfirst a hin).2 rfl
      show w ∈ ((attributeShape a).seq (prefixShape rest l)).whole ↔ _
      rw [Loop.whole_seq, whole_attributeShape, Language.mem_mul]
      constructor
      -- the first attribute is there, or is optional and is not
      · rintro ⟨u, hu, v, hv, rfl⟩
        obtain ⟨as, v, hsub, hreq, hv', rfl⟩ := (ih hrest).mp hv
        have hcases : u = [attributeEvent a] ∨ (u = [] ∧ a.required = false) := by
          by_cases hr : a.required
          · rw [if_pos hr] at hu
            exact Or.inl hu
          · rw [if_neg hr] at hu
            rcases hu with hu | hu
            · exact Or.inr ⟨hu, by simpa using hr⟩
            · exact Or.inl hu
        rcases hcases with rfl | ⟨rfl, hr⟩
        · refine ⟨a :: as, v, hsub.cons_cons a, fun b hb hbr => ?_, hv', rfl⟩
          rcases List.mem_cons.mp hb with rfl | hb
          · exact List.mem_cons_self
          · exact List.mem_cons_of_mem _ (hreq b hb hbr)
        · refine ⟨as, v, hsub.cons a, fun b hb hbr => ?_, hv', rfl⟩
          rcases List.mem_cons.mp hb with rfl | hb
          · exact absurd (hr.symm.trans hbr) (by decide)
          · exact hreq b hb hbr
      -- the other way round, by whether the choice begins with it
      · rintro ⟨as, v, hsub, hreq, hv, rfl⟩
        cases hsub with
        | cons _ hsub =>
            -- passed over, so it is optional
            have hr : ¬ a.required = true := fun hr =>
              hnot (hsub.subset (hreq a List.mem_cons_self hr))
            refine ⟨[], ?_, as.map attributeEvent ++ v, (ih hrest).mpr ⟨as, v, hsub,
              fun b hb => hreq b (List.mem_cons_of_mem _ hb), hv, rfl⟩, rfl⟩
            rw [if_neg hr]
            exact Or.inl rfl
        | cons_cons _ hsub =>
            rename_i as
            refine ⟨[attributeEvent a], ?_, as.map attributeEvent ++ v, (ih hrest).mpr
              ⟨as, v, hsub, fun b hb hbr => ?_, hv, rfl⟩, rfl⟩
            · split
              · exact rfl
              · exact Or.inr rfl
            · rcases List.mem_cons.mp (hreq b (List.mem_cons_of_mem _ hb) hbr) with rfl | hin
              · exact absurd hb hnot
              · exact hin

/-! ## Where the attributes end

An event sequence of a type is a choice of attributes followed by a word without any. It can be
cut in one place only, so the two parts can be compared one by one. -/

/-- Words without attributes. -/
def withoutAttributes : Language Event := {w | ∀ e ∈ w, ∀ a, e ≠ attributeEvent a}

theorem one_le_withoutAttributes : 1 ≤ withoutAttributes := by
  rintro w rfl e he
  exact absurd he List.not_mem_nil

theorem mul_withoutAttributes_le : withoutAttributes * withoutAttributes ≤ withoutAttributes := by
  intro w hw e he
  obtain ⟨u, hu, v, hv, rfl⟩ := Language.mem_mul.mp hw
  rcases List.mem_append.mp he with he | he
  · exact hu e he
  · exact hv e he

theorem within_letter {e : Event} (h : ∀ a, e ≠ attributeEvent a) :
    (Loop.edge (some e)).Within withoutAttributes := by
  refine ⟨bot_le, fun w hw e' he' => ?_⟩
  obtain rfl : w = [e] := hw
  obtain rfl := List.mem_singleton.mp he'
  exact h

theorem within_occursShape {l : Loop Event} (h : l.Within withoutAttributes) (min max : Nat) :
    (occursShape l min max).Within withoutAttributes := by
  refine h.times one_le_withoutAttributes mul_withoutAttributes_le ?_ _
  split
  · exact h.round one_le_withoutAttributes
  · exact h.upTo one_le_withoutAttributes mul_withoutAttributes_le _

mutual

theorem within_shape : ∀ (p : Particle), p.shape.Within withoutAttributes
  | .element e => by
      refine within_occursShape (within_letter fun a h => ?_) _ _
      cases h
  | .any min max => by
      refine within_occursShape (within_letter fun a h => ?_) _ _
      cases h
  | .sequence items min max => within_occursShape (within_sequenceShape items) min max
  | .choice items min max => within_occursShape (within_choiceShape items) min max
  | .all _ _ _ => Loop.Within.stop one_le_withoutAttributes

theorem within_sequenceShape : ∀ (items : List Particle),
    (sequenceShape items).Within withoutAttributes
  | [] => Loop.Within.stop one_le_withoutAttributes
  | item :: items => (within_shape item).seq one_le_withoutAttributes mul_withoutAttributes_le
      (within_sequenceShape items)

theorem within_choiceShape : ∀ (items : List Particle),
    (choiceShape items).Within withoutAttributes
  | [] => ⟨bot_le, bot_le⟩
  | item :: items => (within_shape item).alt (within_choiceShape items)

end

/-- An event sequence has one end without attributes. -/
theorem eq_of_attributes_append {as bs : List Attribute} {v w : List Event}
    (hv : v ∈ withoutAttributes) (hw : w ∈ withoutAttributes)
    (h : as.map attributeEvent ++ v = bs.map attributeEvent ++ w) : v = w := by
  induction as generalizing bs with
  | nil =>
      cases bs with
      | nil => exact h
      | cons b bs =>
          have hin : attributeEvent b ∈ v := by
            rw [List.map_nil, List.nil_append] at h
            rw [h]
            exact List.mem_cons_self
          exact absurd rfl (hv _ hin b)
  | cons a as ih =>
      cases bs with
      | nil =>
          have hin : attributeEvent a ∈ w := by
            rw [List.map_nil, List.nil_append] at h
            rw [← h]
            exact List.mem_cons_self
          exact absurd rfl (hw _ hin a)
      | cons b bs => exact ih (List.cons.inj h).2

/-! ## The content collected

Following the chain of derivations either fails or finds the particles of the type; a chain has
one result. -/

/-- The particles the generator collects are those of the derivation. -/
theorem hasContent_of_ok {schema : Schema} {levels : Nat} {ct : ComplexType} {ps : List Particle}
    (h : effectiveParticles schema levels ct = .ok ps) : HasContent schema ct ps := by
  induction levels generalizing ct ps with
  | zero => cases h
  | succ levels ih =>
      obtain ⟨inherited, hinherited, hlast⟩ := bind_eq_ok.mp h
      cases hlast
      by_cases hd : ct.derivation = .extension
      · cases hbase : schema.baseOf ct with
        | none =>
            rw [hd, hbase] at hinherited
            cases hinherited
            exact .own fun _ => hbase
        | some base =>
            rw [hd, hbase] at hinherited
            exact .extension hd hbase (ih hinherited)
      · have hnone : inherited = [] := by
          split at hinherited
          · rename_i hder _
            exact absurd hder hd
          · exact (Except.ok.inj hinherited).symm
        rw [hnone]
        exact .own fun h => absurd h hd

theorem hasContent_unique {schema : Schema} {ct : ComplexType} {ps qs : List Particle}
    (hp : HasContent schema ct ps) (hq : HasContent schema ct qs) : ps = qs := by
  induction hp generalizing qs with
  | own h =>
      cases hq with
      | own _ => rfl
      | extension hd hb _ => exact absurd ((h hd).symm.trans hb) (by simp)
  | extension hd hb _ ih =>
      cases hq with
      | own h => exact absurd ((h hd).symm.trans hb) (by simp)
      | extension hd' hb' h' =>
          obtain rfl := Option.some.inj (hb.symm.trans hb')
          rw [ih h']

end Builder

/-! ## What is accepted

The automaton spells the attributes and then the shape of the content. That shape misses no word
of the content's language, so what is left is whether it has others. -/

/-- What a content model is, of which there is one. -/
def ContentPlain (schema : Schema) (ct : ComplexType) : Prop :=
  ct.simpleContent = none → ∀ ps, HasContent schema ct ps → Plains ps

/-- No word that goes round the particles of the content and then leaves is new. -/
def AddsNothing (schema : Schema) (ct : ComplexType) : Prop :=
  ct.simpleContent = none → ∀ ps, HasContent schema ct ps →
    (sequenceShape ps).whole ≤ sequenceLanguage ps

/-- No particle of the content that leads back to the state it starts from shares it. -/
def ContentSeparate (schema : Schema) (ct : ComplexType) : Prop :=
  ct.simpleContent = none → ∀ ps, HasContent schema ct ps → separates ps = true

section Accepts

open Builder

variable {schema : Schema} {ct : ComplexType} {g : Grammar}

theorem ContentPlain.noAlls (h : ContentPlain schema ct) (hs : ct.simpleContent = none)
    {ps : List Particle} (hps : effectiveParticles schema derivationLevels ct = .ok ps) :
    NoAlls ps :=
  (h hs ps (hasContent_of_ok hps)).noAlls

theorem contentLanguage_eq {ps : List Particle} (hs : ct.simpleContent = none)
    (hps : HasContent schema ct ps) : contentLanguage schema ct = sequenceLanguage ps := by
  rw [contentLanguage, hs]
  ext w
  constructor
  · rintro ⟨qs, hqs, hw⟩
    rwa [hasContent_unique hps hqs]
  · exact fun hw => ⟨ps, hps, hw⟩

theorem contentLanguage_within {l : Loop Event} (h : HasShape schema ct l) :
    l.whole ≤ withoutAttributes := by
  unfold HasShape at h
  split at h
  · rw [h]
    refine (within_letter fun a ha => ?_).whole one_le_withoutAttributes mul_withoutAttributes_le
    cases ha
  · obtain ⟨ps, _, rfl⟩ := h
    exact (within_sequenceShape ps).whole one_le_withoutAttributes mul_withoutAttributes_le

/-- The shape of the content misses none of its words, and adds none if and only if its rounds do
not. -/
theorem contentLanguage_shape (hplain : ContentPlain schema ct) {l : Loop Event}
    (h : HasShape schema ct l) :
    contentLanguage schema ct ≤ l.whole
      ∧ (l.whole ≤ contentLanguage schema ct ↔ AddsNothing schema ct) := by
  unfold HasShape at h
  cases hs : ct.simpleContent with
  | some simple =>
      rw [hs] at h
      obtain rfl : l = .edge (some (.characters (.named simple))) := h
      have heq : (Loop.edge (some (Event.characters (.named simple)))).whole
          = contentLanguage schema ct := by
        rw [Loop.whole_edge_some, contentLanguage, hs]
      rw [heq]
      refine ⟨le_rfl, fun _ hnone => ?_, fun _ => le_rfl⟩
      exact absurd (hs.symm.trans hnone) (by simp)
  | none =>
      rw [hs] at h
      obtain ⟨ps, hps, rfl⟩ := h
      have hcontent := hasContent_of_ok hps
      rw [contentLanguage_eq hs hcontent]
      refine ⟨sequenceLanguage_le_shape ps (hplain hs ps hcontent), fun hle _ qs hqs => ?_,
        fun h => h hs ps hcontent⟩
      rwa [← hasContent_unique hcontent hqs]

/-- What a derived grammar spells: a choice of attributes, and then a word of the shape of the
content. -/
theorem spells_complexType_iff (hg : complexType schema ct = .ok g) (hmixed : ct.mixed = false)
    (hplain : ContentPlain schema ct)
    (hagree : ∀ a b, Declares schema ct a → Declares schema ct b → a.name = b.name → a = b) :
    ∃ l, HasShape schema ct l ∧ (∃ as, Chosen schema ct as) ∧
      ∀ w, g.Spells 0 w ↔ ∃ (as : List Attribute) (v : List Event), Chosen schema ct as
        ∧ v ∈ l.whole ∧ w = as.map attributeEvent ++ v := by
  obtain ⟨attributes, l, nfa, accept, hattributes, hshape, rfl, hzero, hclosed, hspells⟩ :=
    spells_automaton (fun hs ps hps => hplain.noAlls hs hps) hg
  obtain ⟨hordered, _⟩ := collectAttributes_spec hattributes
  have hchosen : ∀ as, Chosen schema ct as ↔ _ := fun as => chosen_iff hagree hattributes
  refine ⟨l, hshape, ⟨attributes, (hchosen attributes).mpr
    ⟨List.Sublist.refl _, fun a ha _ => ha⟩⟩, fun w => ?_⟩
  rw [hmixed, spells_determinise_iff hclosed hzero, hspells _ rfl, mem_prefixShape_iff hordered]
  constructor
  · rintro ⟨as, v, hsub, hreq, hv, rfl⟩
    exact ⟨as, v, (hchosen as).mpr ⟨hsub, hreq⟩, hv, rfl⟩
  · rintro ⟨as, v, hc, hv, rfl⟩
    obtain ⟨hsub, hreq⟩ := (hchosen as).mp hc
    exact ⟨as, v, hsub, hreq, hv, rfl⟩

/-- A derived grammar accepts every valid instance. It accepts nothing else if and only if the
rounds of the content model add no word to it; and they add none if nothing that leads back to the
state it starts from shares that state. -/
theorem accepts_instances_iff (hg : complexType schema ct = .ok g) (hmixed : ct.mixed = false)
    (hplain : ContentPlain schema ct)
    (hagree : ∀ a b, Declares schema ct a → Declares schema ct b → a.name = b.name → a = b) :
    (∀ w, Instance schema ct w → g.Spells 0 w)
      ∧ ((∀ w, g.Spells 0 w ↔ Instance schema ct w) ↔ AddsNothing schema ct)
      ∧ (ContentSeparate schema ct → AddsNothing schema ct) := by
  obtain ⟨l, hshape, ⟨attributes, hattributes⟩, hspells⟩ :=
    spells_complexType_iff hg hmixed hplain hagree
  obtain ⟨hle, hiff⟩ := contentLanguage_shape hplain hshape
  have hsound : ∀ w, Instance schema ct w → g.Spells 0 w := by
    rintro w ⟨as, v, hc, hv, rfl⟩
    exact (hspells _).mpr ⟨as, v, hc, hle hv, rfl⟩
  refine ⟨hsound, ⟨fun hall => ?_, fun hadds w => ⟨fun hw => ?_, hsound w⟩⟩, ?_⟩
  · -- after the attributes, a word of the shape is a word of the content
    refine hiff.mp fun v hv => ?_
    obtain ⟨as, v', _, hv', heq⟩ := (hall _).mp ((hspells _).mpr ⟨attributes, v, hattributes, hv,
      rfl⟩)
    have hwithin := contentLanguage_within hshape
    rwa [eq_of_attributes_append (hwithin hv) (hwithin (hle hv')) heq]
  · obtain ⟨as, v, hc, hv, rfl⟩ := (hspells w).mp hw
    exact ⟨as, v, hc, hiff.mpr hadds hv, rfl⟩
  · intro hsep hs ps hps
    exact sequenceShape_le_language ps (hplain hs ps hps) (hsep hs ps hps)

/-! A loop at the start of a branch, which leads back to where the other branch starts, and the
same loop after an element, which leads back to where nothing else does. -/

def elementNamed (name : String) (min max : Nat) : Particle :=
  .element ⟨⟨name, ""⟩, .named ⟨"t", ""⟩, min, max, false⟩

def startNamed (name : String) : Event := .startElement ⟨name, ""⟩ (.named ⟨"t", ""⟩) false

/-- `b` once and `a` any number of times, with an attribute that may be left out. -/
def listType : ComplexType where
  base := none
  derivation := .none
  particle := some (.sequence [elementNamed "b" 1 1, elementNamed "a" 0 unbounded] 1 1)
  attributes := [⟨⟨"id", ""⟩, .named ⟨"t", ""⟩, false⟩]
  mixed := false
  simpleContent := none

/-- `a` any number of times, or else `b`. -/
def loopType : ComplexType where
  base := none
  derivation := .none
  particle := some (.choice [elementNamed "a" 0 unbounded, elementNamed "b" 1 1] 1 1)
  attributes := []
  mixed := false
  simpleContent := none

/-- Types that are not derived from others. -/
def noTypes : Schema := ⟨fun _ => none⟩

theorem declares_noTypes {a : Attribute} (h : Declares noTypes ct a) : a ∈ ct.attributes := by
  cases h with
  | own h => exact h
  | inherited hb _ =>
      rw [Schema.baseOf, Option.bind_eq_some_iff] at hb
      obtain ⟨_, _, hnone⟩ := hb
      cases hnone

theorem hasContent_noTypes {ps : List Particle} (h : HasContent noTypes ct ps) :
    ps = ct.particle.toList := by
  cases h with
  | own _ => rfl
  | extension _ hb _ =>
      rw [Schema.baseOf, Option.bind_eq_some_iff] at hb
      obtain ⟨_, _, hnone⟩ := hb
      cases hnone

theorem accepts_instances_listType : ∃ g, complexType noTypes listType = .ok g ∧
    ∀ w, g.Spells 0 w ↔ Instance noTypes listType w := by
  obtain ⟨g, hg⟩ : ∃ g, complexType noTypes listType = .ok g := ⟨_, rfl⟩
  refine ⟨g, hg, ?_⟩
  have hplain : ContentPlain noTypes listType := by
    intro _ ps hps
    rw [hasContent_noTypes hps]
    simp [listType, elementNamed, Plains, Particle.Plain, Unrolled, maxUnroll, unbounded]
  have hsep : ContentSeparate noTypes listType := by
    intro _ ps hps
    rw [hasContent_noTypes hps]
    decide
  have hagree : ∀ a b, Declares noTypes listType a → Declares noTypes listType b →
      a.name = b.name → a = b := by
    intro a b ha hb _
    rw [List.mem_singleton.mp (declares_noTypes ha), List.mem_singleton.mp (declares_noTypes hb)]
  obtain ⟨_, hiff, hadds⟩ := accepts_instances_iff hg rfl hplain hagree
  exact hiff.mpr (hadds hsep)

/-- The grammar of `loopType`: after an `a`, it offers what it offered before. -/
def loopGrammar : Grammar :=
  ⟨[⟨[⟨startNamed "a", 1⟩, ⟨startNamed "b", 2⟩, ⟨.endElement, noTarget⟩]⟩,
    ⟨[⟨startNamed "a", 1⟩, ⟨startNamed "b", 2⟩, ⟨.endElement, noTarget⟩]⟩,
    ⟨[⟨.endElement, noTarget⟩]⟩]⟩

theorem complexType_loopType : complexType noTypes loopType = .ok loopGrammar := by
  decide +kernel

theorem loopGrammar_spells : loopGrammar.Spells 0 [startNamed "a", startNamed "b"] := by
  have hlast : loopGrammar.Spells 2 [] :=
    .done (p := ⟨.endElement, noTarget⟩) rfl (by simp) rfl
  have hb : loopGrammar.Spells 1 [startNamed "b"] :=
    .step (p := ⟨startNamed "b", 2⟩) rfl (by simp) (by decide) hlast
  exact .step (p := ⟨startNamed "a", 1⟩) rfl (by simp) (by decide) hb

/-- The words of a letter repeated have no other letter. -/
theorem mem_pow_letter {e : Event} {n : Nat} {w : List Event}
    (hw : w ∈ ({[e]} : Language Event) ^ n) : ∀ x ∈ w, x = e := by
  induction n generalizing w with
  | zero =>
      rw [pow_zero] at hw
      obtain rfl : w = [] := hw
      exact fun x hx => absurd hx List.not_mem_nil
  | succ n ih =>
      rw [pow_succ'] at hw
      obtain ⟨u, rfl, v, hv, rfl⟩ := Language.mem_mul.mp hw
      intro x hx
      rcases List.mem_cons.mp hx with rfl | hx
      · rfl
      · exact ih hv x hx

/-- The loop of a repeated particle goes through a state its siblings share, and so lets through
what is no instance. -/
theorem not_accepts_only_instances :
    ¬ ∀ (schema : Schema) (ct : ComplexType) (g : Grammar), complexType schema ct = .ok g →
      ct.mixed = false → ContentPlain schema ct →
      (∀ a b, Declares schema ct a → Declares schema ct b → a.name = b.name → a = b) →
      ∀ w, g.Spells 0 w ↔ Instance schema ct w := by
  intro h
  have hplain : ContentPlain noTypes loopType := by
    intro _ ps hps
    rw [hasContent_noTypes hps]
    simp [loopType, elementNamed, Plains, Particle.Plain, Unrolled, maxUnroll, unbounded]
  have hagree : ∀ a b, Declares noTypes loopType a → Declares noTypes loopType b →
      a.name = b.name → a = b := by
    intro a b ha
    exact absurd (declares_noTypes ha) List.not_mem_nil
  obtain ⟨as, v, hc, hv, heq⟩ :=
    (h noTypes loopType loopGrammar complexType_loopType rfl hplain hagree _).mp loopGrammar_spells
  have hnone : as = [] := by
    cases as with
    | nil => rfl
    | cons a as =>
        exact absurd (declares_noTypes (hc.declared a List.mem_cons_self)) List.not_mem_nil
  rw [hnone, List.map_nil, List.nil_append] at heq
  subst heq
  obtain ⟨ps, hps, hw⟩ := hv
  rw [hasContent_noTypes hps] at hw
  -- one occurrence of the choice, and neither branch has both letters
  obtain ⟨u, ⟨n, hmin, hmax, hu⟩, t, rfl, hut⟩ := Language.mem_mul.mp hw
  obtain rfl : n = 1 := by
    have hle := hmax.resolve_left (by decide)
    omega
  rw [List.append_nil] at hut
  subst hut
  rw [pow_one] at hu
  rcases hu with ⟨k, _, _, hu⟩ | ⟨k, _, _, hu⟩ | hu
  · have hb := mem_pow_letter hu (startNamed "b") (by simp)
    exact absurd hb (by decide)
  · have ha := mem_pow_letter hu (startNamed "a") (by simp)
    exact absurd ha (by decide)
  · exact hu

end Accepts

end Iso15118.Codegen
