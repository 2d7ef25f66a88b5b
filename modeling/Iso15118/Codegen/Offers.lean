import Iso15118.Codegen.BuildOrder
import Iso15118.Codegen.Derivation

/-!
# What the grammar of a laid out type offers

The grammar of a type that can be laid out, with its codes apart (`Refinable`), is its blocks:
behind any word the productions of its state are the events that the blocks which are left offer, in
their order, and the end of the element once nothing more need come (**`tracks_of_refinable`**).

Two things are put together here. The construction has been shown to spell the words of the blocks
(`Construction`, `ContentModel`), and to number its edges in the order of their letters
(`BuildOrder`). The determinised grammar keeps both (`Determinise`, `EventOrder`), so that what a
state offers is a list of events without repetition, in the order of the letters, and of the same
members as the first letters of the blocks that are left: there is only one such list.
-/

open Computability

namespace Iso15118.Codegen

open Lib

/-! ## The types looked at

What is asked of a type so that its codes can be counted by a list of items. Most of it says that
an event is never offered for two reasons. -/

/-- The types whose codes a layout can count: nothing is mixed in, the branches of choices occur
once, bounds are unrolled, only what has one code repeats, and no event is expected twice, nor
anything behind a wildcard. -/
structure Refinable (schema : Schema) (ct : ComplexType) (items : List Item) : Prop where
  unmixed : ct.mixed = false
  branches : ct.simpleContent = none → ∀ particles,
    Builder.effectiveParticles schema Builder.derivationLevels ct = .ok particles →
    BranchesOnces particles
  regular : ∀ item ∈ items, item.Regular
  distinct : (items.flatMap expectedEvents).Nodup
  wildcard : .wildcard ∉ (items.flatMap expectedEvents).dropLast

/-- What holds item by item holds of all the events together. -/
theorem matches_alphabet {items : List Item} {blocks : List (Block Event)}
    (h : List.Forall₂ Item.Shows items blocks) :
    List.Forall₂ (fun x e => eventMatches x e = true) (items.flatMap expectedEvents)
      (Block.alphabet blocks) := by
  induction h with
  | nil => exact .nil
  | cons hshows _ ih =>
    rw [List.flatMap_cons, Block.alphabet_cons]
    exact List.rel_append (R := fun x e => eventMatches x e = true) hshows.letters ih

/-- Events that are expected at different places are different. -/
theorem nodup_of_matches {xs : List Expected} {es : List Event}
    (h : List.Forall₂ (fun x e => eventMatches x e = true) xs es) (hxs : xs.Nodup) :
    es.Nodup := by
  induction h with
  | nil => exact List.nodup_nil
  | @cons x e xs es hmatch hrest ih =>
    rw [List.nodup_cons] at hxs ⊢
    refine ⟨fun he => hxs.1 ?_, ih hxs.2⟩
    obtain ⟨i, hi, rfl⟩ := List.mem_iff_getElem.mp he
    have hx : i < xs.length := hrest.length_eq ▸ hi
    have hmatch' := hrest.get (i := i) hx hi
    rw [eventMatches_unique hmatch hmatch']
    exact List.getElem_mem hx

/-- A wildcard among the events is the last of them. -/
theorem wildcard_last {xs : List Expected} {es : List Event}
    (h : List.Forall₂ (fun x e => eventMatches x e = true) xs es)
    (hwild : .wildcard ∉ xs.dropLast) : .wildcard ∉ es.dropLast := by
  intro hin
  obtain ⟨i, hi, he⟩ := List.mem_iff_getElem.mp hin
  rw [List.length_dropLast] at hi
  rw [List.getElem_dropLast] at he
  have hlength := h.length_eq
  have hmatch := h.get (i := i) (by omega) (by omega)
  have hx : xs[i] = .wildcard := by
    have hmatch' : eventMatches xs[i] .wildcard = true := he ▸ hmatch
    exact eventMatches_unique hmatch' rfl
  refine hwild (List.mem_iff_getElem.mpr ⟨i, by rw [List.length_dropLast]; omega, ?_⟩)
  rw [List.getElem_dropLast]
  exact hx

/-- The blocks that regular items show have letters and bounds in order. -/
theorem sound_of_shows {items : List Item} {blocks : List (Block Event)}
    (h : List.Forall₂ Item.Shows items blocks) (hregular : ∀ item ∈ items, item.Regular) :
    ∀ b ∈ blocks, b.Sound := by
  induction h with
  | nil => exact fun b hb => by cases hb
  | @cons item b _ _ hshows _ ih =>
    intro c hc
    have hitem := hregular item List.mem_cons_self
    rcases List.mem_cons.mp hc with rfl | hc
    · refine ⟨fun hnil => ?_, fun m hm => ?_⟩
      · have hpos := hitem.productions
        rw [← hshows.length, hnil] at hpos
        exact absurd hpos (lt_irrefl 0)
      · have hmax : boundOf item.max = some m := hshows.max ▸ hm
        unfold boundOf at hmax
        split at hmax
        · cases hmax
        · cases hmax
          rw [hshows.min]
          exact hitem.unrolled.1
    · exact ih (fun i hi => hregular i (List.mem_cons_of_mem _ hi)) c hc

/-! ## The automaton of a type

Words, order and reach of the automaton a type is compiled to, put together from the attributes
and the content. This is the one place where construction and flattening meet. -/

namespace Builder

/-- An automaton made of blocks: it spells their words, its edges are in the order of their events,
and none of them leads astray. -/
structure MadeOf (blocks : List (Block Event)) (nfa : Nfa) (accept : Nat) : Prop where
  made : nfa.Made
  entry : 0 < nfa.states.length
  spells : ∀ w, Spells (nfa.machine accept) 0 w accept ↔ w ∈ Block.content blocks
  onward : ∀ q event t, t ∈ nfa.graph.step q (some event) → nfa.Leads t accept
  ranked : nfa.Ranked (fun e => (Block.alphabet blocks).idxOf e) (Block.alphabet blocks).length

/-- The attributes are a chain of optional edges, ranked in their order. -/
theorem extends_attributes {rank : Event → Nat} (attributes : List Attribute) {low : Nat}
    {nfa : Nfa} {s : Nat} (hs : s < nfa.states.length)
    (hrank : Numbered rank low (attributes.map attributeEvent)) :
    Nfa.Extends rank low (low + attributes.length) nfa (addAttributes attributes nfa s).2 s
      (addAttributes attributes nfa s).1 := by
  induction attributes generalizing low nfa s with
  | nil => exact .stay hs .refl le_rfl
  | cons a rest ih =>
    have hone : rank (attributeEvent a) = low := hrank 0 _ rfl
    have hedge : Nfa.Extends rank low (low + 1) nfa
        (nfa.addState.2.edge s (attributeEvent a) nfa.states.length) s nfa.states.length := by
      refine .edge hs (fun h => by cases h) (Nat.le_succ low) fun _ => ?_
      rw [hone]
      exact ⟨Nat.le_succ low, Nat.lt_succ_self low⟩
    have hfirst : Nfa.Extends rank low (low + 1) nfa
        (if a.required then nfa.addState.2.edge s (attributeEvent a) nfa.states.length
          else (nfa.addState.2.edge s (attributeEvent a) nfa.states.length).epsilon s
            nfa.states.length) s nfa.states.length := by
      split
      · exact hedge
      · exact (hedge.epsilon (hs.trans_le hedge.size) hedge.exit).1
    have hsplit : Numbered rank low ([attributeEvent a] ++ rest.map attributeEvent) := hrank
    have hlater : Numbered rank (low + 1) (rest.map attributeEvent) := hsplit.right
    have hrest := ih hfirst.exit hlater
    rw [List.length_cons, Nat.add_comm rest.length 1, ← Nat.add_assoc]
    exact hfirst.trans hrest

theorem flattenAll_append {ps qs : List Particle} {xs ys : List Item}
    (hps : flattenAll ps = .ok xs) (hqs : flattenAll qs = .ok ys) :
    flattenAll (ps ++ qs) = .ok (xs ++ ys) := by
  induction ps generalizing xs with
  | nil =>
    cases hps
    exact hqs
  | cons p ps ih =>
    obtain ⟨first, hfirst, hps⟩ := bind_eq_ok.mp hps
    obtain ⟨rest, hrest, hlast⟩ := bind_eq_ok.mp hps
    cases hlast
    rw [List.append_assoc]
    exact bind_eq_ok.mpr ⟨first, hfirst, bind_eq_ok.mpr ⟨_, ih hrest, rfl⟩⟩

/-- What a type's content is flattened to is flattened from the particles of its grammar. -/
theorem effectiveParticles_of_collect {schema : Schema} {levels : Nat} {ct : ComplexType}
    {items : List Item} (h : collect schema levels ct = .ok items) :
    ∃ particles, effectiveParticles schema levels ct = .ok particles
      ∧ flattenAll particles = .ok items := by
  induction levels generalizing ct items with
  | zero => cases h
  | succ levels ih =>
    obtain ⟨inherited, hinherited, h⟩ := bind_eq_ok.mp h
    obtain ⟨own, hown, hlast⟩ := bind_eq_ok.mp h
    cases hlast
    -- the inherited part, by the derivation of the type
    have hfirst : ∃ ps, effectiveParticles schema (levels + 1) ct
          = .ok (ps ++ ct.particle.toList) ∧ flattenAll ps = .ok inherited := by
      rw [effectiveParticles]
      revert hinherited
      cases ct.derivation with
      | extension =>
        cases schema.baseOf ct with
        | none =>
          intro h
          cases h
          exact ⟨[], rfl, rfl⟩
        | some base =>
          intro h
          obtain ⟨ps, hps, hflatten⟩ := ih h
          exact ⟨ps, bind_eq_ok.mpr ⟨ps, hps, rfl⟩, hflatten⟩
      | none =>
        intro h
        cases h
        exact ⟨[], rfl, rfl⟩
      | restriction =>
        intro h
        cases h
        exact ⟨[], rfl, rfl⟩
    -- and its own
    have hsecond : flattenAll ct.particle.toList = .ok own := by
      revert hown
      cases ct.particle with
      | none => exact id
      | some particle =>
        intro h
        exact bind_eq_ok.mpr ⟨own, h, bind_eq_ok.mpr ⟨[], rfl, by rw [List.append_nil]⟩⟩
    obtain ⟨ps, hparticles, hflatten⟩ := hfirst
    exact ⟨_, hparticles, flattenAll_append hflatten hsecond⟩

/-- An attribute is one optional event, or a required one. -/
theorem words_attribute (a : Attribute) : (attributeShape a).whole = Block.words a.block := by
  rw [whole_attributeShape, Attribute.block]
  split
  · next hrequired =>
    rw [hrequired, singleton_eq_letters, ← repetition_one (Block.one _), repetition_letters]
    rfl
  · next hoptional =>
    rw [show a.required = false from Bool.eq_false_iff.mpr hoptional]
    ext w
    constructor
    · rintro (h | h)
      · obtain rfl : w = [] := h
        exact Block.nil_mem_words.mpr rfl
      · obtain rfl : w = [attributeEvent a] := h
        exact ⟨Nat.zero_le _, fun m hm => (Option.mem_some_iff.mp hm).le, fun e he => he⟩
    · rintro ⟨-, hmax, hall⟩
      cases w with
      | nil => exact .inl rfl
      | cons e w =>
        have hnil : w = [] := List.length_eq_zero_iff.mp (Nat.le_zero.mp
          (Nat.le_of_succ_le_succ (hmax 1 rfl)))
        rw [hnil, List.mem_singleton.mp (hall e List.mem_cons_self)]
        exact .inr rfl

/-- The words of the attributes, each of which may be left out if it is optional. -/
theorem whole_attributes (attributes : List Attribute) (l : Loop Event) :
    (prefixShape attributes l).whole
      = Block.content (attributes.map Attribute.block) * l.whole := by
  induction attributes with
  | nil => exact (one_mul _).symm
  | cons a rest ih =>
    show ((attributeShape a).seq (prefixShape rest l)).whole
      = Block.words a.block * Block.content (rest.map Attribute.block) * l.whole
    rw [Loop.whole_seq, ih, words_attribute, mul_assoc]

/-- The content of a type that can be laid out: its items, the blocks they show, and the body that
compiles them. -/
theorem exists_content {schema : Schema} {ct : ComplexType} {content : List Item}
    (h : contentItems schema ct = .ok content)
    (honce : ct.simpleContent = none → ∀ particles,
      effectiveParticles schema derivationLevels ct = .ok particles → BranchesOnces particles)
    (hregular : ∀ item ∈ content, item.Regular) :
    ∃ blocks, List.Forall₂ Item.Shows content blocks
      ∧ (∀ {l}, HasShape schema ct l → l.whole = Block.content blocks)
      ∧ ∀ {rank : Event → Nat} {low : Nat}, Numbered rank low (Block.alphabet blocks) →
        Builds rank low (low + (Block.alphabet blocks).length) (buildContent schema ct) := by
  unfold contentItems at h
  cases hsimple : ct.simpleContent with
  -- simple content is one event, once
  | some simple =>
    rw [hsimple] at h
    cases h
    refine ⟨[⟨[.characters (.named simple)], 1, some 1⟩], .cons (shows_characters _) .nil,
      fun {l} hl => ?_, fun {rank low} hrank => ?_⟩
    · unfold HasShape at hl
      rw [hsimple] at hl
      rw [hl, Loop.whole_edge_some]
      show ({[_]} : Language Event) = Block.words _ * 1
      rw [mul_one, singleton_eq_letters, ← repetition_one (Block.one _), repetition_letters]
      rfl
    · have hone : rank (.characters (.named simple)) = low := hrank 0 _ rfl
      have hbody : buildContent schema ct = single (.characters (.named simple)) := by
        funext nfa cursor
        unfold buildContent
        rw [hsimple]
      rw [hbody]
      refine builds_single (fun h => by cases h) (Nat.le_add_right ..) fun _ => ?_
      rw [hone]
      exact ⟨Nat.le_succ low, Nat.lt_succ_self low⟩
  -- any other is made of particles, of one block each
  | none =>
    rw [hsimple] at h
    obtain ⟨particles, hparticles, hflatten⟩ := effectiveParticles_of_collect h
    have hbranches := honce hsimple particles hparticles
    refine ⟨blocksOf particles, shows_flattenAll particles hflatten, fun {l} hl => ?_,
      fun {rank low} hrank => ?_⟩
    · unfold HasShape at hl
      rw [hsimple] at hl
      obtain ⟨particles', hparticles', rfl⟩ := hl
      cases hparticles.symm.trans hparticles'
      exact whole_flattenAll hflatten hbranches hregular
    · have hbody : buildContent schema ct = buildSequence particles := by
        funext nfa cursor
        unfold buildContent
        rw [hsimple, hparticles]
        rfl
      rw [hbody]
      exact builds_flattenAll particles hflatten hbranches hregular hrank

theorem extends_enterContent {rank : Event → Nat} {low : Nat} {nfa : Nfa} {cursor : Nat}
    (h : cursor < nfa.states.length) :
    Nfa.Extends rank low low nfa (enterContent nfa cursor) cursor cursor := by
  have hsize : (enterContent nfa cursor).states.length = nfa.states.length :=
    List.length_modify ..
  have hgraph := graph_enterContent h
  refine ⟨by omega, by omega, fun hmade => hmade.enterContent h, fun q a => ?_, .refl,
    fun q event t ht => .inl ?_, fun _ hranked => hranked.mono le_rfl (Nfa.hasEdge_enterContent h)⟩
  · rw [hgraph]
  · rwa [hgraph] at ht

/-- The words of a type's automaton are those of its blocks. -/
theorem spells_blocks {schema : Schema} {ct : ComplexType} {attributes : List Attribute}
    {blocks : List (Block Event)} {nfa : Nfa} {accept : Nat}
    (hall : ct.simpleContent = none → ∀ particles,
      effectiveParticles schema derivationLevels ct = .ok particles → NoAlls particles)
    (hwhole : ∀ {l}, HasShape schema ct l → l.whole = Block.content blocks)
    (hcontent : buildContent schema ct
        (enterContent (addAttributes attributes .new 0).2 (addAttributes attributes .new 0).1)
        (addAttributes attributes .new 0).1 = .ok (accept, nfa)) (w : List Event) :
    Spells (nfa.machine accept) 0 w accept
      ↔ w ∈ Block.content (attributes.map Attribute.block ++ blocks) := by
  have hnew : 0 < Nfa.new.states.length := Nat.zero_lt_one
  obtain ⟨hlt, hbefore⟩ := chain_attributes attributes hnew
  obtain ⟨l, hshape, hchain⟩ := chain_content hall
    (by
      show _ < (List.modify _ _ _).length
      rwa [List.length_modify])
    hcontent
  rw [graph_enterContent hlt] at hchain
  rw [Block.content_append, ← hwhole hshape, ← whole_attributes]
  exact (hbefore hchain).spells_iff (Nfa.graph_new_step 0) rfl w

/-- The grammar of a type that can be laid out is made of the blocks its items show. -/
theorem exists_madeOf {schema : Schema} {ct : ComplexType} {l : Layout}
    (hl : Layout.of schema ct = .ok l) (h : Refinable schema ct l.items) :
    ∃ contentStart blocks nfa accept,
      l = .ofItems l.items contentStart false
        ∧ complexType schema ct = .ok (determinise nfa 0 accept false)
        ∧ List.Forall₂ Item.Shows l.items blocks ∧ MadeOf blocks nfa accept := by
  -- the attributes and the content, each with the blocks it shows
  obtain ⟨attributes, hattributes, hl⟩ := bind_eq_ok.mp hl
  obtain ⟨content, hcontent, hcompute⟩ := bind_eq_ok.mp hl
  have hattributes := mapError_eq_ok.mp hattributes
  obtain rfl : l = .ofItems (attributes.map (fun a => .attribute a.field) ++ content)
      attributes.length ct.mixed := by
    unfold Layout.compute at hcompute
    split at hcompute
    · cases hcompute
    · cases hcompute
      rfl
  obtain ⟨blocks, hshows, hwhole, hbuilds⟩ := exists_content hcontent h.branches
    -- the ranks of events are their places in the alphabet, in which each is there once
    fun item hitem => h.regular item (List.mem_append_right _ hitem)
  have hattributeShows : List.Forall₂ Item.Shows (attributes.map fun a => .attribute a.field)
      (attributes.map Attribute.block) := by
    rw [List.forall₂_map_left_iff, List.forall₂_map_right_iff]
    exact List.forall₂_same.mpr fun a _ => a.shows
  have hall := List.rel_append (R := Item.Shows) hattributeShows hshows
  have hdistinct := nodup_of_matches (matches_alphabet hall) h.distinct
  have halphabet : Block.alphabet (attributes.map Attribute.block)
      = attributes.map attributeEvent := by
    unfold Block.alphabet
    rw [List.flatMap_map]
    exact List.map_eq_flatMap.symm
  have hrank : Numbered
      (fun e => (Block.alphabet (attributes.map Attribute.block ++ blocks)).idxOf e) 0
      (Block.alphabet (attributes.map Attribute.block ++ blocks)) := by
    intro i e he
    obtain ⟨hi, rfl⟩ := List.getElem?_eq_some_iff.mp he
    rw [Nat.zero_add]
    exact hdistinct.idxOf_getElem i hi
  generalize halphabets : Block.alphabet (attributes.map Attribute.block ++ blocks) = es at hrank
  rw [Block.alphabet_append, halphabet] at halphabets
  have hsplit : Numbered (fun e => es.idxOf e) 0
      (attributes.map attributeEvent ++ Block.alphabet blocks) := halphabets ▸ hrank
  have hlater := hsplit.right
  rw [List.length_map] at hlater
  -- the automaton in three stages: the attributes, the beginning of the content, the content
  have hnew : 0 < Nfa.new.states.length := Nat.zero_lt_one
  have hfirst := extends_attributes attributes hnew hsplit.left
  have henter : Nfa.Extends (fun e => es.idxOf e) (0 + attributes.length) (0 + attributes.length)
      _ _ _ _ := extends_enterContent hfirst.exit
  obtain ⟨accept, nfa, hbuild, hext⟩ := hbuilds hlater _ _ henter.exit
  have htotal := (hfirst.trans henter).trans hext
  refine ⟨attributes.length, _, nfa, accept, by rw [h.unmixed]; rfl,
    -- what it spells, that no edge leads astray, and the order of the edges
    bind_eq_ok.mpr ⟨attributes, hattributes, bind_eq_ok.mpr ⟨(accept, nfa), hbuild, ?_⟩⟩, hall, ?_⟩
  · rw [h.unmixed]
  · refine ⟨htotal.made .new, Nat.zero_lt_one.trans_le htotal.size,
      spells_blocks ?_ hwhole hbuild, fun q event t ht => ?_, ?_⟩
    · intro hsimple particles hparticles
      unfold contentItems at hcontent
      rw [hsimple] at hcontent
      obtain ⟨particles', hparticles', hflatten⟩ := effectiveParticles_of_collect hcontent
      cases hparticles.symm.trans hparticles'
      exact Plains.noAlls (language_flattenAll particles hflatten
        (h.branches hsimple particles hparticles)
        fun item hitem => h.regular item (List.mem_append_right _ hitem)).1
    · refine (htotal.trim q event t ht).resolve_left fun hnew => ?_
      rw [Nfa.graph_new_step] at hnew
      cases hnew
    · rw [Block.alphabet_append, halphabet, halphabets]
      have hlength : es.length = 0 + attributes.length + (Block.alphabet blocks).length := by
        rw [← halphabets, List.length_append, List.length_map, Nat.zero_add]
      rw [hlength]
      refine htotal.ranked .new ⟨fun he => absurd he Nfa.not_hasEdge_new, fun he => ?_⟩
      exact absurd he Nfa.not_hasEdge_new

end Builder

/-! ## The productions of a state

What a set of states offers is what the blocks offer that are left behind the word. The same
events on both sides, and in the same order; so the lists are equal. -/

/-- Behind every word the grammar offers what its blocks do, and the end where they may. -/
def Grammar.Tracks (g : Grammar) (blocks : List (Block Event)) : Prop :=
  ∀ {w i}, g.Arrives w i → ∃ s rest, g.states[i]? = some s ∧ Block.after blocks w = some rest
    ∧ s.productions.map Production.event
      = Block.offers rest ++ if Block.ends rest then [.endElement] else []

namespace Builder

theorem spells_of_leads (accept : Nat) {nfa : Nfa} {q t : Nat} (h : nfa.Leads q t) :
    ∃ v, Spells (nfa.machine accept) q v t := by
  induction h with
  | refl => exact ⟨[], .nil q⟩
  | tail _ hstep ih =>
    obtain ⟨v, hv⟩ := ih
    obtain ⟨a, hin⟩ := hstep
    exact ⟨v ++ a.toList, hv.trans (.single hin)⟩

/-- Distinct events in a list are in the order of where they are. -/
theorem pairwise_idxOf {es : List Event} (h : es.Nodup) :
    es.Pairwise fun e e' => es.idxOf e < es.idxOf e' := by
  rw [List.pairwise_iff_getElem]
  intro i j hi hj hlt
  rw [h.idxOf_getElem, h.idxOf_getElem]
  exact hlt

/-- What is last in a list is behind everything else. -/
theorem idxOf_lt_last {es : List Event} {e last : Event} (hlast : last ∉ es.dropLast)
    (hin : last ∈ es) (he : e ∈ es) (hne : e ≠ last) : es.idxOf e < es.idxOf last := by
  have hlt := List.idxOf_lt_length_of_mem he
  have hlt' := List.idxOf_lt_length_of_mem hin
  have hend : es.idxOf last = es.length - 1 := by
    by_contra hbefore
    refine hlast (List.mem_iff_getElem.mpr ⟨es.idxOf last, ?_, ?_⟩)
    · rw [List.length_dropLast]
      omega
    · rw [List.getElem_dropLast, List.getElem_idxOf]
  have hdifferent : es.idxOf e ≠ es.idxOf last := fun heq => hne ((List.idxOf_inj he).mp heq)
  omega

section MadeOf

variable {blocks : List (Block Event)} {nfa : Nfa} {accept : Nat}

/-- What a set of states offers goes on to a word of the blocks. -/
theorem MadeOf.exists_word (h : MadeOf blocks nfa accept) {set : Finset Nat} {w : List Event}
    (hset : ∀ q, q ∈ set ↔ Spells (nfa.machine accept) 0 w q) {e : Event} :
    (∃ order, LeastOrder nfa set e order) ↔ ∃ v, w ++ e :: v ∈ Block.content blocks := by
  constructor
  · rintro ⟨order, ⟨q, hq, target, hin⟩, -⟩
    have hstep : target ∈ nfa.graph.step q (some e) := ⟨order, hin⟩
    obtain ⟨v, hv⟩ := spells_of_leads accept (h.onward q e target hstep)
    refine ⟨v, (h.spells _).mp ?_⟩
    have hletter : Spells (nfa.machine accept) q [e] target := .single (a := some e) hstep
    exact ((hset q).mp hq).trans (hletter.trans hv)
  · rintro ⟨v, hv⟩
    obtain ⟨q, target, hq, hstep, -⟩ := ((h.spells _).mpr hv).through
    obtain ⟨order, hin⟩ := hstep
    have hne : {o | ∃ q ∈ set, ∃ target, (o, e, target) ∈ (nfa.state q).edges}.Nonempty :=
      ⟨order, q, (hset q).mpr hq, target, hin⟩
    obtain ⟨least, hleast, hmin⟩ := WellFounded.has_min (wellFounded_lt (α := Nat)) _ hne
    exact ⟨least, hleast, fun o ho => Nat.le_of_not_lt (hmin o ho)⟩

/-- A word that leads somewhere begins a word of the blocks. -/
theorem MadeOf.exists_after (h : MadeOf blocks nfa accept)
    (hdistinct : (Block.alphabet blocks).Nodup) (hsound : ∀ b ∈ blocks, b.Sound)
    {found : Found} (hend : Progress nfa accept found.queue.length found)
    (hlisted : Listed nfa 0 accept found.queue.length found) {w : List Event} {i : Nat}
    (harrives : (Grammar.mk found.states).Arrives w i) :
    ∃ rest, Block.after blocks w = some rest := by
  have hword : ∃ v, w ++ v ∈ Block.content blocks := by
    cases harrives with
    | start => exact Block.exists_content hsound
    | @step w i s p harrives hs hp he =>
      obtain ⟨set, hset, hmem⟩ := arrives_set h.made.closed h.entry hend hlisted harrives
      obtain ⟨hlt, -⟩ := List.getElem?_eq_some_iff.mp hset
      obtain ⟨s', hs', hevents⟩ := hlisted.events i set hlt hset
      obtain rfl := Option.some.inj (hs'.symm.trans hs)
      have hbounded : ∀ q ∈ set, q < nfa.states.length :=
        hend.sound.bounded set (List.mem_of_getElem? hset)
      have horder := inOrder_listing accept h.made hbounded
      rw [← hevents] at horder
      obtain ⟨v, hv⟩ := (h.exists_word hmem).mp
        ((horder.offered p.event he).mp (List.mem_map_of_mem hp))
      exact ⟨v, by rw [List.append_assoc]; exact hv⟩
  obtain ⟨v, hv⟩ := hword
  obtain ⟨rest, hrest, -⟩ := Block.exists_after hdistinct hv
  exact ⟨rest, hrest⟩

/-- The events of a state, without the end, are those that are offered, in their order. -/
theorem MadeOf.sorted_events (h : MadeOf blocks nfa accept)
    (hdistinct : (Block.alphabet blocks).Nodup)
    (hwild : .wildcard ∉ (Block.alphabet blocks).dropLast) (hsound : ∀ b ∈ blocks, b.Sound)
    {set : Finset Nat} (hbounded : ∀ q ∈ set, q < nfa.states.length) {w : List Event}
    (hset : ∀ q, q ∈ set ↔ Spells (nfa.machine accept) 0 w q) {rest : List (Block Event)}
    (hrest : Block.after blocks w = some rest) :
    ((sortEdges (gather nfa set)).map fun x => x.2.1) = Block.offers rest := by
  obtain ⟨hsuffix, hsound', hleft⟩ := Block.left_after hdistinct hsound hrest
  have hdistinct' : (Block.alphabet rest).Nodup := hdistinct.sublist hsuffix.sublist
  -- an event of the state is one of some edge that leaves the set
  have hgathered : ∀ e, (e ∈ (sortEdges (gather nfa set)).map fun x => x.2.1)
      ↔ ∃ order, LeastOrder nfa set e order := by
    intro e
    rw [List.mem_map]
    constructor
    · rintro ⟨x, hx, rfl⟩
      exact ⟨x.1, leastOrder_gather hbounded ((List.mem_insertionSort _).mp hx)⟩
    · rintro ⟨order, hleast⟩
      obtain ⟨x, hx, he⟩ := hleast.exists_mem_gather hbounded
      exact ⟨x, (List.mem_insertionSort _).mpr hx, he⟩
  -- and then the blocks offer it, for there is a word that goes on with it
  have hmem : ∀ e, (e ∈ (sortEdges (gather nfa set)).map fun x => x.2.1)
      ↔ e ∈ Block.offers rest := by
    intro e
    rw [hgathered, h.exists_word hset, Block.mem_offers_iff]
    constructor
    · rintro ⟨v, hv⟩
      obtain ⟨left, hstep, -⟩ := (Block.cons_mem_content hdistinct').mp ((hleft _).mp hv)
      exact ⟨left, hstep⟩
    · rintro ⟨left, hstep⟩
      obtain ⟨v, hv⟩ := Block.exists_content (Block.sound_step hsound' hstep)
      exact ⟨v, (hleft _).mpr ((Block.cons_mem_content hdistinct').mpr ⟨left, hstep, hv⟩)⟩
  have halphabet : ∀ e ∈ (sortEdges (gather nfa set)).map (fun x => x.2.1),
      e ∈ Block.alphabet blocks := fun e he =>
    hsuffix.subset ((Block.offers_sublist rest).subset ((hmem e).mp he))
  have : Std.Antisymm fun e e' : Event =>
      (Block.alphabet blocks).idxOf e < (Block.alphabet blocks).idxOf e' :=
    ⟨fun e e' hlt hgt => absurd hgt hlt.asymm⟩
  have : Std.Irrefl fun e e' : Event =>
      (Block.alphabet blocks).idxOf e < (Block.alphabet blocks).idxOf e' :=
    ⟨fun e => lt_irrefl _⟩
  -- the two lists have the same events, and both are in the order of the alphabet
  refine List.Pairwise.eq_of_mem_iff
    (r := fun e e' => (Block.alphabet blocks).idxOf e < (Block.alphabet blocks).idxOf e') ?_
    ((pairwise_idxOf hdistinct).sublist ((Block.offers_sublist rest).trans hsuffix.sublist)) hmem
  refine (precedes_sortEdges h.made hbounded).imp_of_mem ?_
  intro e e' he he' hprecedes
  cases hprecedes with
  | declared hdeclared hdeclared' hleast hleast' hlt =>
    by_contra hnot
    -- an edge that was made first has an event that comes first
    have hlt' : (Block.alphabet blocks).idxOf e' < (Block.alphabet blocks).idxOf e := by
      refine lt_of_le_of_ne (Nat.le_of_not_lt hnot) fun heq => ?_
      have hsame : e' = e := (List.idxOf_inj (halphabet e' he')).mp heq
      subst hsame
      exact hlt.ne (hleast.unique hleast')
    obtain ⟨⟨q, -, target, hin⟩, -⟩ := hleast
    obtain ⟨⟨q', -, target', hin'⟩, -⟩ := hleast'
    have hgt := h.ranked.ordered ⟨q', target', hin'⟩ ⟨q, target, hin⟩ hdeclared' hdeclared hlt'
    omega
  | wildcard hdeclared hend =>
    exact idxOf_lt_last hwild (halphabet _ he') (halphabet _ he) hdeclared
  | last hend =>
    obtain ⟨order, hleast⟩ := (hgathered _).mp he'
    exact absurd rfl (hleast.ne_endElement h.made.closed)

/-- The grammar of an automaton made of blocks keeps track of what is left of them. -/
theorem MadeOf.tracks (h : MadeOf blocks nfa accept) (hdistinct : (Block.alphabet blocks).Nodup)
    (hwild : .wildcard ∉ (Block.alphabet blocks).dropLast) (hsound : ∀ b ∈ blocks, b.Sound) :
    (determinise nfa 0 accept false).Tracks blocks := by
  have hG := h.made.closed
  have hbegin : Progress nfa accept 0 ⟨[nfa.closure {0}], [{}]⟩ := progress_begin hG h.entry
  have hlisted : Listed nfa 0 accept 0 ⟨[nfa.closure {0}], [{}]⟩ := by
    refine ⟨rfl, fun i set hi => absurd hi (Nat.not_lt_zero i), fun j hpos hj => ?_⟩
    have hone : j < 1 := hj
    omega
  obtain ⟨final, hfinal, hend, hkept⟩ :=
    subsets_run hG (fun hprogress hset h => Listed.turn hG hprogress hset h) hbegin
      (le_refl (2 ^ nfa.states.length)) hlisted
  have hsame : determinise nfa 0 accept false = ⟨final.states⟩ :=
    congrArg (fun found => Grammar.mk found.states) (hfinal 0)
  rw [hsame]
  intro w i harrives
  obtain ⟨set, hset, hmem⟩ := arrives_set hG h.entry hend hkept harrives
  obtain ⟨hlt, -⟩ := List.getElem?_eq_some_iff.mp hset
  obtain ⟨s, hs, hevents⟩ := hkept.events i set hlt hset
  obtain ⟨rest, hrest⟩ := h.exists_after hdistinct hsound hend hkept harrives
  have hbounded : ∀ q ∈ set, q < nfa.states.length :=
    hend.sound.bounded set (List.mem_of_getElem? hset)
  refine ⟨s, rest, hs, hrest, ?_⟩
  rw [hevents, listing, h.sorted_events hdistinct hwild hsound hbounded hmem hrest]
  have haccept : accept ∈ set ↔ Block.ends rest = true := by
    have hleft := (Block.left_after hdistinct hsound hrest).2.2 []
    rw [List.append_nil] at hleft
    rw [hmem, h.spells, hleft, Block.nil_mem_content]
  rw [if_congr haccept rfl rfl]

end MadeOf

end Builder

/-- A type that can be laid out has a grammar, and it keeps track of the blocks of its items. -/
theorem tracks_of_refinable {schema : Schema} {ct : ComplexType} {l : Layout}
    (hl : Layout.of schema ct = .ok l) (h : Refinable schema ct l.items) :
    ∃ contentStart blocks g, l = .ofItems l.items contentStart false
      ∧ Builder.complexType schema ct = .ok g ∧ List.Forall₂ Item.Shows l.items blocks
      ∧ (Block.alphabet blocks).Nodup ∧ g.Tracks blocks := by
  obtain ⟨contentStart, blocks, nfa, accept, hlayout, hg, hshows, hmade⟩ :=
    Builder.exists_madeOf hl h
  have hmatches := matches_alphabet hshows
  have hdistinct := nodup_of_matches hmatches h.distinct
  exact ⟨contentStart, blocks, _, hlayout, hg, hshows, hdistinct,
    hmade.tracks hdistinct (wildcard_last hmatches h.wildcard) (sound_of_shows hshows h.regular)⟩

end Iso15118.Codegen
