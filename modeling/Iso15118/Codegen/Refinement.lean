import Iso15118.Codegen.Coding
import Iso15118.Codegen.Offers

/-!
# The codes of a layout are those of the grammar

Generated code numbers events by sums and shifts; the grammar of the type numbers them by where they
stand among the productions of a state. What connects the two are the blocks that are left behind a
word (`Lib.Blocks`): the grammar offers them, and the writer's position, shift and width are their
sizes (`Writes`).

* **`codes_iff`** — the codes along the paths of a grammar, by blocks;
* **`Writes.item`**, **`Writes.all`** — a writer, item by item and to the end;
* **`codes_refine_grammar`** — whatever a type's coder writes is a path of its grammar, and every
  path is written.
-/

namespace Iso15118.Codegen

open Lib Exi

/-! ## Codes

A production's position among those of its state is its code. Where the grammar keeps track of
the blocks, that position is one among what the blocks offer. -/

/-- The event codes along a path to the end of the element: at each state the position of the
production that is taken, and the width of the state. -/
inductive Grammar.Codes (g : Grammar) : Nat → List Event → List (Nat × Nat) → Prop where
  | done {i k : Nat} {s : State} {p : Production} (hs : g.states[i]? = some s)
      (hp : s.productions[k]? = some p) (he : p.event = .endElement) :
      Codes g i [] [(k, s.eventWidth)]
  | step {i k : Nat} {s : State} {p : Production} {w : List Event} {codes : List (Nat × Nat)}
      (hs : g.states[i]? = some s) (hp : s.productions[k]? = some p) (he : p.event ≠ .endElement)
      (h : Codes g p.target w codes) : Codes g i (p.event :: w) ((k, s.eventWidth) :: codes)

/-- The width of what blocks offer. -/
def offerWidth (rest : List (Block Event)) : Nat :=
  bitWidth ((Block.offers rest).length + (Block.ends rest).toNat + 1)

/-- The codes of the events of a word, where the blocks offer them. -/
def pathCodes : List (Block Event) → List Event → List (Nat × Nat)
  | _, [] => []
  | rest, e :: w =>
      ((Block.offers rest).idxOf e, offerWidth rest)
        :: ((Block.step rest e).elim [] fun left => pathCodes left w)

/-- The code of the end, behind everything that is offered. -/
def closeCode (rest : List (Block Event)) : Nat × Nat :=
  ((Block.offers rest).length, offerWidth rest)

theorem pathCodes_cons {rest left : List (Block Event)} {e : Event} (w : List Event)
    (h : Block.step rest e = some left) :
    pathCodes rest (e :: w)
      = ((Block.offers rest).idxOf e, offerWidth rest) :: pathCodes left w := by
  rw [pathCodes, h]
  rfl

theorem pathCodes_append {rest left : List (Block Event)} {u : List Event} (v : List Event)
    (h : Block.after rest u = some left) :
    pathCodes rest (u ++ v) = pathCodes rest u ++ pathCodes left v := by
  induction u generalizing rest with
  | nil =>
    cases h
    rfl
  | cons e u ih =>
    obtain ⟨mid, hstep, hleft⟩ := Option.bind_eq_some_iff.mp h
    rw [List.cons_append, pathCodes_cons _ hstep, pathCodes_cons _ hstep, ih hleft,
      List.cons_append]

section Codes

variable {g : Grammar} {blocks : List (Block Event)}

/-- Where a production stands among those of a state. -/
theorem position_of_offers {rest : List (Block Event)} {s : State} {k : Nat} {p : Production}
    (hdistinct : (Block.offers rest).Nodup) (hlabels : .endElement ∉ Block.offers rest)
    (hevents : s.productions.map Production.event
      = Block.offers rest ++ if Block.ends rest then [.endElement] else [])
    (hp : s.productions[k]? = some p) :
    (p.event ≠ .endElement → p.event ∈ Block.offers rest ∧ k = (Block.offers rest).idxOf p.event)
      ∧ (p.event = .endElement → Block.ends rest = true ∧ k = (Block.offers rest).length) := by
  have hk : (Block.offers rest ++ if Block.ends rest then [Event.endElement] else [])[k]?
      = some p.event := by
    rw [← hevents, List.getElem?_map, hp]
    rfl
  rcases Nat.lt_or_ge k (Block.offers rest).length with hlt | hge
  · rw [List.getElem?_append_left hlt] at hk
    obtain ⟨_, heq⟩ := List.getElem?_eq_some_iff.mp hk
    have hin : p.event ∈ Block.offers rest := heq ▸ List.getElem_mem hlt
    refine ⟨fun _ => ⟨hin, ?_⟩, fun hend => absurd (hend ▸ hin) hlabels⟩
    rw [← heq, hdistinct.idxOf_getElem]
  · rw [List.getElem?_append_right hge] at hk
    split at hk
    · next hends =>
      obtain ⟨hzero, heq⟩ := List.getElem?_eq_some_iff.mp hk
      rw [List.length_singleton] at hzero
      have hend : p.event = .endElement := by
        rw [← heq]
        exact List.getElem_singleton _
      exact ⟨fun hne => absurd hend hne, fun _ => ⟨hends, by omega⟩⟩
    · cases hk

theorem eventWidth_of_offers {rest : List (Block Event)} {s : State}
    (hevents : s.productions.map Production.event
      = Block.offers rest ++ if Block.ends rest then [.endElement] else []) :
    s.eventWidth = offerWidth rest := by
  have hlength := congrArg List.length hevents
  rw [List.length_map, List.length_append] at hlength
  unfold State.eventWidth offerWidth
  rw [hlength]
  cases Block.ends rest <;> rfl

theorem after_concat {w : List Event} {rest : List (Block Event)} {e : Event}
    (h : Block.after blocks w = some rest) :
    Block.after blocks (w ++ [e]) = Block.step rest e := by
  rw [Block.after_append, h]
  exact Option.bind_fun_some _

/-- Everything that is offered has a production, and so has the end where it may come. -/
theorem production_of_offers {rest : List (Block Event)} {s : State}
    (hevents : s.productions.map Production.event
      = Block.offers rest ++ if Block.ends rest then [.endElement] else []) :
    (∀ e ∈ Block.offers rest, ∃ p, s.productions[(Block.offers rest).idxOf e]? = some p
        ∧ p.event = e)
      ∧ (Block.ends rest = true → ∃ p, s.productions[(Block.offers rest).length]? = some p
        ∧ p.event = .endElement) := by
  refine ⟨fun e he => ?_, fun hends => ?_⟩
  · have hlt := List.idxOf_lt_length_of_mem he
    have hk : (s.productions.map Production.event)[(Block.offers rest).idxOf e]? = some e := by
      rw [hevents, List.getElem?_append_left hlt]
      exact List.getElem?_eq_some_iff.mpr ⟨hlt, List.getElem_idxOf hlt⟩
    rw [List.getElem?_map] at hk
    exact Option.map_eq_some_iff.mp hk
  · have hk : (s.productions.map Production.event)[(Block.offers rest).length]?
        = some .endElement := by
      rw [hevents, List.getElem?_append_right le_rfl, Nat.sub_self, if_pos hends]
      rfl
    rw [List.getElem?_map] at hk
    exact Option.map_eq_some_iff.mp hk

/-- **The codes of the paths of a grammar** are those of the words of its blocks. -/
theorem codes_iff (htracks : g.Tracks blocks) (hdistinct : (Block.alphabet blocks).Nodup)
    (hlabels : .endElement ∉ Block.alphabet blocks) (hsound : ∀ b ∈ blocks, b.Sound)
    (v : List Event) {codes : List (Nat × Nat)} {w : List Event} {i : Nat}
    {rest : List (Block Event)} (harrives : g.Arrives w i)
    (hrest : Block.after blocks w = some rest) :
    g.Codes i v codes ↔ ∃ left, Block.after rest v = some left ∧ Block.ends left = true
      ∧ codes = pathCodes rest v ++ [closeCode left] := by
  induction v generalizing codes w i rest with
  -- no more events: what is left is the end, which the grammar has if the blocks may end
  | nil =>
    obtain ⟨s, rest', hs, hrest', hevents⟩ := htracks harrives
    cases hrest.symm.trans hrest'
    have hsub := (Block.offers_sublist rest).trans
      (Block.left_after hdistinct hsound hrest).1.sublist
    have hwidth := eventWidth_of_offers hevents
    constructor
    · intro h
      cases h with
      | done hs' hp he =>
        cases hs.symm.trans hs'
        obtain ⟨hends, rfl⟩ := (position_of_offers (hdistinct.sublist hsub)
          (fun h => hlabels (hsub.subset h)) hevents hp).2 he
        refine ⟨rest, rfl, hends, ?_⟩
        rw [hwidth]
        rfl
    · rintro ⟨left, hleft, hends, rfl⟩
      cases hleft
      obtain ⟨p, hp, he⟩ := (production_of_offers hevents).2 hends
      have hdone := Grammar.Codes.done (g := g) hs hp he
      rw [hwidth] at hdone
      exact hdone
  | cons e v ih =>
    -- one event: its code is its position among what the blocks offer
    obtain ⟨s, rest', hs, hrest', hevents⟩ := htracks harrives
    cases hrest.symm.trans hrest'
    have hsub := (Block.offers_sublist rest).trans
      (Block.left_after hdistinct hsound hrest).1.sublist
    have hwidth := eventWidth_of_offers hevents
    -- behind the event the grammar and the blocks have gone on together
    have hnext : ∀ p ∈ s.productions, p.event = e → e ≠ .endElement →
        ∃ left, Block.step rest e = some left ∧ g.Arrives (w ++ [e]) p.target
          ∧ Block.after blocks (w ++ [e]) = some left := by
      rintro p hp rfl he
      have harrives' := harrives.step hs hp he
      obtain ⟨-, left, -, hleft, -⟩ := htracks harrives'
      exact ⟨left, (after_concat hrest).symm.trans hleft, harrives', hleft⟩
    constructor
    -- from the path to the blocks, which go on by the event of the production taken
    · intro h
      cases h with
      | @step _ k s' p _ codes hs' hp he hcodes =>
        cases hs.symm.trans hs'
        obtain ⟨-, rfl⟩ := (position_of_offers (hdistinct.sublist hsub)
          (fun h => hlabels (hsub.subset h)) hevents hp).1 he
        obtain ⟨left, hstep, harrives', hafter⟩ := hnext p (List.mem_of_getElem? hp) rfl he
        obtain ⟨last, hlast, hends, rfl⟩ := (ih harrives' hafter).mp hcodes
        refine ⟨last, ?_, hends, ?_⟩
        · rw [Block.after, hstep]
          exact hlast
        · rw [pathCodes_cons _ hstep, hwidth]
          rfl
    -- and back: an event that is offered has a production
    · rintro ⟨last, hlast, hends, rfl⟩
      obtain ⟨left, hstep, hlater⟩ := Option.bind_eq_some_iff.mp hlast
      have hin : e ∈ Block.offers rest := Block.mem_offers_iff.mpr ⟨left, hstep⟩
      obtain ⟨p, hp, rfl⟩ := (production_of_offers hevents).1 e hin
      have he : p.event ≠ .endElement := fun h => hlabels (h ▸ hsub.subset hin)
      obtain ⟨left', hstep', harrives', hafter⟩ := hnext p (List.mem_of_getElem? hp) rfl he
      cases hstep.symm.trans hstep'
      have hcodes := (ih harrives' hafter).mpr ⟨last, hlater, hends, rfl⟩
      have hall := Grammar.Codes.step hs hp he hcodes
      rw [hwidth] at hall
      rw [pathCodes_cons _ hstep]
      exact hall

end Codes

/-! ## What blocks offer from an item on

First sets, in terms of blocks: the events of optional items, up to those of the first required
one. -/

section Items

variable {items : List Item} {blocks : List (Block Event)}

/-- The item and the block at a position. -/
theorem shows_at (h : List.Forall₂ Item.Shows items blocks) {j : Nat} {item : Item}
    (hj : items[j]? = some item) :
    ∃ b, blocks[j]? = some b ∧ item.Shows b ∧ blocks.drop j = b :: blocks.drop (j + 1) := by
  obtain ⟨hlt, rfl⟩ := List.getElem?_eq_some_iff.mp hj
  have hlt' : j < blocks.length := h.length_eq ▸ hlt
  exact ⟨blocks[j], List.getElem?_eq_getElem hlt', h.get hlt hlt', List.drop_eq_getElem_cons hlt'⟩

theorem boundOf_ne_zero {max : Nat} (h : 0 < max) : boundOf max ≠ some 0 := by
  unfold boundOf
  split
  · intro heq
    cases heq
  · intro heq
    exact absurd (Option.some.inj heq) (Nat.ne_of_gt h)

theorem offers_cons_of_regular {item : Item} {b : Block Event} (hshows : item.Shows b)
    (hregular : item.Regular) (rest : List (Block Event)) :
    Block.offers (b :: rest)
      = b.letters ++ if item.min = 0 then Block.offers rest else [] := by
  have hmax : b.max ≠ some 0 := by
    rw [hshows.max]
    exact boundOf_ne_zero hregular.occurs
  rw [Block.offers, if_neg hmax, hshows.min]

/-- From an item on: the events up to the first required item's, and whether there is none. -/
theorem offers_drop (h : List.Forall₂ Item.Shows items blocks)
    (hregular : ∀ item ∈ items, item.Regular) {i : Nat} (hi : i ≤ items.length) :
    (Block.offers (blocks.drop i)).length
        = before items (firstSetEnd items i) - before items i
      ∧ Block.ends (blocks.drop i) = endOk items i := by
  obtain ⟨n, hn⟩ : ∃ n, items.length - i = n := ⟨_, rfl⟩
  -- induction on how many items there are from `i` on
  induction n generalizing i with
  | zero =>
    obtain rfl : i = items.length := by omega
    have hrequired := firstRequired_of_nil items (List.getElem?_eq_none (le_refl items.length))
    have hdrop : blocks.drop items.length = [] := List.drop_eq_nil_of_le h.length_eq.ge
    rw [hdrop]
    unfold endOk firstSetEnd
    rw [hrequired, if_neg (lt_irrefl _)]
    simp [Block.offers, Block.ends]
  | succ n ih =>
    have hlt : i < items.length := by omega
    have hitem : items[i]? = some items[i] := List.getElem?_eq_getElem hlt
    obtain ⟨b, -, hshows, hdrop⟩ := shows_at h hitem
    have hreg := hregular items[i] (List.getElem_mem hlt)
    obtain ⟨hlength, hends⟩ := ih (i := i + 1) hlt (by omega)
    have hlater : i + 1 ≤ firstSetEnd items (i + 1) := by
      have hle := le_firstRequired items (i + 1)
      unfold firstSetEnd
      split <;> omega
    have hbefore : before items (i + 1) ≤ before items (firstSetEnd items (i + 1)) :=
      before_mono hlater
    rw [hdrop, offers_cons_of_regular hshows hreg, List.length_append, hshows.length]
    have hcons : Block.ends (b :: blocks.drop (i + 1))
        = (decide (items[i].min = 0) && Block.ends (blocks.drop (i + 1))) := by
      show (decide (b.min = 0) && _) = _
      rw [hshows.min]
      rfl
    rw [hcons, hends]
    -- an optional item offers its events and lets those behind it be offered too
    by_cases hmin : items[i].min = 0
    · have hsame := firstRequired_of_optional hitem hmin
      have hset : firstSetEnd items i = firstSetEnd items (i + 1) := by
        unfold firstSetEnd
        rw [hsame]
      rw [if_pos hmin, hlength, hset]
      rw [before_succ hitem] at hbefore ⊢
      refine ⟨by omega, ?_⟩
      unfold endOk
      rw [hsame, hmin]
      rfl
    -- a required one keeps them back
    · have hsame := firstRequired_of_required hitem hmin
      have hset : firstSetEnd items i = i + 1 := by
        unfold firstSetEnd
        rw [hsame, if_pos hlt]
      rw [if_neg hmin, hset, before_succ hitem]
      refine ⟨by simp, ?_⟩
      unfold endOk
      rw [hsame]
      simp [hmin, hlt.ne]

/-- An event that optional items are before is offered behind theirs, and nothing is left of
them. -/
theorem skip_to (h : List.Forall₂ Item.Shows items blocks)
    (hregular : ∀ item ∈ items, item.Regular) (hdistinct : (Block.alphabet blocks).Nodup)
    {pos j place : Nat} {item : Item} {b : Block Event} {e : Event} (hpos : pos ≤ j)
    (hj : items[j]? = some item) (hb : blocks[j]? = some b) (he : b.letters[place]? = some e)
    (hoptional : ∀ k item, pos ≤ k → k < j → items[k]? = some item → item.min = 0) :
    (Block.offers (blocks.drop pos)).idxOf e = before items j - before items pos + place
      ∧ Block.step (blocks.drop pos) e = some (b.next :: blocks.drop (j + 1)) := by
  have halphabet : ∀ i, (Block.alphabet (blocks.drop i)).Nodup := fun i =>
    hdistinct.sublist ((List.drop_sublist i blocks).flatMap _)
  have hin : e ∈ b.letters := List.mem_of_getElem? he
  -- induction on how many items are passed over
  obtain ⟨n, hn⟩ : ∃ n, j - pos = n := ⟨_, rfl⟩
  induction n generalizing pos with
  | zero =>
    obtain rfl : pos = j := by omega
    obtain ⟨b', hb', hshows, hdrop⟩ := shows_at h hj
    cases hb.symm.trans hb'
    have hreg := hregular item (List.mem_of_getElem? hj)
    have hletters := halphabet pos
    rw [hdrop, Block.alphabet_cons] at hletters
    rw [hdrop]
    -- none: the event is one of the first block's
    refine ⟨?_, Block.step_head hin ?_⟩
    · obtain ⟨hlt, rfl⟩ := List.getElem?_eq_some_iff.mp he
      rw [offers_cons_of_regular hshows hreg, List.idxOf_append_of_mem hin,
        (List.nodup_append.mp hletters).1.idxOf_getElem]
      omega
    · rw [hshows.max]
      exact boundOf_ne_zero hreg.occurs
  | succ n ih =>
    have hlt := (List.getElem?_eq_some_iff.mp hj).1
    have hitem : items[pos]? = some items[pos] := List.getElem?_eq_getElem (by omega)
    obtain ⟨b', -, hshows, hdrop⟩ := shows_at h hitem
    have hreg := hregular items[pos] (List.getElem_mem _)
    have hmin := hoptional pos items[pos] le_rfl (by omega) hitem
    have hnext : pos + 1 ≤ j := by omega
    obtain ⟨hplace, hstep⟩ := ih hnext
      (fun k item hk => hoptional k item (by omega)) (by omega)
    -- the first of them has other events, for no event is in two blocks
    have hapart : e ∉ b'.letters := by
      intro hin'
      have hletters := halphabet pos
      rw [hdrop, Block.alphabet_cons] at hletters
      have hlater : e ∈ Block.alphabet (blocks.drop (pos + 1)) :=
        List.mem_flatMap.mpr ⟨b, List.mem_of_getElem? (i := j - (pos + 1)) (by
          rw [List.getElem?_drop, show pos + 1 + (j - (pos + 1)) = j by omega]
          exact hb), hin⟩
      exact (List.nodup_append.mp hletters).2.2 e hin' e hlater rfl
    have hbefore : before items (pos + 1) ≤ before items j := before_mono (by omega)
    rw [before_succ hitem] at hbefore hplace
    rw [hdrop, Block.step_tail hapart (hshows.min.trans hmin)]
    refine ⟨?_, hstep⟩
    rw [offers_cons_of_regular hshows hreg, if_pos hmin, List.idxOf_append_of_notMem hapart,
      hplace, hshows.length]
    omega

end Items

/-! ## The writer

The writer knows a position, a shift and a width; the blocks that are left determine the same
three numbers. Each case of `codeOf` is compared with them. -/

section Writer

variable (items : List Item) (blocks : List (Block Event)) (contentStart : Nat)

/-- A writer and the blocks that are left: what they offer is as many events as the shift, and then
what is offered from the position on. -/
structure Writes (w : SeqWriter) (rest : List (Block Event)) : Prop where
  shape : w.shape = shapeOf items contentStart false
  pos : w.pos ≤ items.length
  offers : ∃ again : List Event, again.length = w.base
    ∧ Block.offers rest = again ++ Block.offers (blocks.drop w.pos)
    ∧ ∀ e ∈ Block.alphabet (blocks.drop w.pos), e ∉ again
  ends : Block.ends rest = Block.ends (blocks.drop w.pos)
  step : ∀ e ∈ Block.alphabet (blocks.drop w.pos),
    Block.step rest e = Block.step (blocks.drop w.pos) e
  width : w.width = offerWidth rest

variable {items blocks contentStart}

section Widths

variable (h : List.Forall₂ Item.Shows items blocks) (hregular : ∀ item ∈ items, item.Regular)

include h hregular

theorem positionWidth_eq {i : Nat} (hi : i ≤ items.length) :
    positionWidth items contentStart false i = offerWidth (blocks.drop i) := by
  obtain ⟨hlength, hends⟩ := offers_drop h hregular hi
  unfold positionWidth offerWidth
  rw [hlength, hends]
  rfl

/-- The width where an item is open for more. -/
theorem repeatedWidth_eq {j : Nat} {item : Item} {b : Block Event} (hj : items[j]? = some item)
    (hletters : b.letters.length = item.productions) (hmax : b.max ≠ some 0) (hmin : b.min = 0) :
    repeatedWidth items contentStart false j item
      = offerWidth (b :: blocks.drop (j + 1)) := by
  obtain ⟨hlength, hends⟩ := offers_drop h hregular (List.getElem?_eq_some_iff.mp hj).1
  have hcons : Block.ends (b :: blocks.drop (j + 1)) = Block.ends (blocks.drop (j + 1)) := by
    show (decide (b.min = 0) && _) = _
    rw [hmin]
    rfl
  unfold repeatedWidth offerWidth
  rw [Block.offers, if_neg hmax, if_pos hmin, List.length_append, hletters, hlength, hcons, hends]
  rfl

theorem writes_new :
    Writes items blocks contentStart (.new (shapeOf items contentStart false)) blocks := by
  refine ⟨rfl, Nat.zero_le _, ⟨[], rfl, rfl, fun e _ he => by cases he⟩, rfl, fun e _ => rfl, ?_⟩
  show (shapeOf items contentStart false).widthAt 0 = _
  rw [shapeOf_widthAt items contentStart false (Nat.zero_le _),
    positionWidth_eq h hregular (Nat.zero_le _)]
  rfl

end Widths

section Occurrences

variable (h : List.Forall₂ Item.Shows items blocks) (hregular : ∀ item ∈ items, item.Regular)
  {j n : Nat} {item : Item} {b : Block Event} (hj : items[j]? = some item) (hshows : item.Shows b)

include hshows in
/-- Whether an item is open for more. -/
theorem later_max (hfinite : n < unbounded) :
    ((b.later n).max = some 0 ↔ item.max ≤ n) := by
  show b.max.map (· - n) = some 0 ↔ _
  rw [hshows.max]
  unfold boundOf
  split
  · next hmax =>
    constructor
    · intro heq
      cases heq
    · intro hle
      omega
  · show some (item.max - n) = some 0 ↔ _
    rw [Option.some.injEq]
    omega

include h hregular hj hshows in
/-- The width behind so many occurrences of an item. -/
theorem widthAfter_eq (hpos : 0 < n) (hfinite : n < unbounded) :
    (shapeOf items contentStart false).widthAfter j n
      = if item.min ≤ n ∨ item.max ≤ n then offerWidth (b.later n :: blocks.drop (j + 1))
        else belowMinWidth := by
  have hreg := hregular item (List.mem_of_getElem? hj)
  have hbounds := hreg.unrolled.1
  have hclosed := later_max hshows hfinite
  have hlatest : item.min ≤ n → (b.later n).min = 0 := by
    intro hle
    show b.min - n = 0
    rw [hshows.min]
    omega
  unfold Shape.widthAfter
  rw [shapeOf_maxAt contentStart false hj, shapeOf_minAt contentStart false hj]
  by_cases hmore : n < item.max
  · rw [if_pos hmore]
    by_cases hmin : n < item.min
    · rw [if_pos hmin, if_neg (by omega)]
    · rw [if_neg hmin, if_pos (by omega), shapeOf_repeatWidthAt contentStart false hj (by omega)]
      exact repeatedWidth_eq h hregular hj hshows.length
        (fun heq => absurd (hclosed.mp heq) (by omega)) (hlatest (by omega))
  · have hlt := (List.getElem?_eq_some_iff.mp hj).1
    have hzero : (b.later n).min = 0 := hlatest (by omega)
    rw [if_neg hmore, if_pos (by omega), shapeOf_widthAt items contentStart false hlt,
      positionWidth_eq h hregular hlt]
    unfold offerWidth
    rw [Block.offers, if_pos (hclosed.mpr (by omega)), if_pos hzero, List.nil_append]
    show _ = bitWidth (_ + (decide ((b.later n).min = 0) && _).toNat + 1)
    rw [hzero]
    rfl

include hshows in
/-- What is offered where an item of one event is open for more. -/
theorem offers_later {e : Event} (hone : b.letters = [e]) (hmore : n < item.max)
    (hfinite : n < unbounded) (rest : List (Block Event)) :
    Block.offers (b.later n :: rest) = (e :: if item.min ≤ n then Block.offers rest else [])
      ∧ Block.step (b.later n :: rest) e = some (b.later (n + 1) :: rest) := by
  have hopen : (b.later n).max ≠ some 0 := fun heq =>
    absurd ((later_max hshows hfinite).mp heq) (by omega)
  have hletters : (b.later n).letters = [e] := hone
  have hmin : (b.later n).min = 0 ↔ item.min ≤ n := by
    show b.min - n = 0 ↔ _
    rw [hshows.min]
    omega
  constructor
  · rw [Block.offers, if_neg hopen, hletters, if_congr hmin rfl rfl]
    rfl
  · have hin : e ∈ (b.later n).letters := by
      rw [hletters]
      exact List.mem_singleton_self e
    rw [Block.step_head hin hopen, Block.next_later]

include hshows in
/-- Below the minimum there is nothing else. -/
theorem offerWidth_below {e : Event} (hone : b.letters = [e]) (hmore : n < item.max)
    (hfinite : n < unbounded) (hbelow : n < item.min) (rest : List (Block Event)) :
    offerWidth (b.later n :: rest) = belowMinWidth := by
  have hmin : (b.later n).min ≠ 0 := by
    show b.min - n ≠ 0
    rw [hshows.min]
    omega
  unfold offerWidth
  rw [(offers_later hshows hone hmore hfinite rest).1, if_neg (by omega)]
  show bitWidth (1 + (decide ((b.later n).min = 0) && _).toNat + 1) = 1
  rw [decide_eq_false hmin]
  rfl

include h hregular hj hshows in
/-- The later occurrences of an item that has one event. -/
theorem codes_again {w : SeqWriter} (hshape : w.shape = shapeOf items contentStart false)
    {e : Event} (hone : b.letters = [e]) {places : List Nat} (hzero : ∀ x ∈ places, x = 0)
    (hpos : 0 < n) (hmax : n + places.length ≤ item.max)
    (hfinite : n + places.length < unbounded) :
    Block.after (b.later n :: blocks.drop (j + 1)) (b.word places)
        = some (b.later (n + places.length) :: blocks.drop (j + 1))
      ∧ codesFrom w j n places
        = pathCodes (b.later n :: blocks.drop (j + 1)) (b.word places) := by
  -- induction on the occurrences that are still to come
  induction places generalizing n with
  | nil => exact ⟨rfl, rfl⟩
  | cons x places ih =>
    obtain rfl := hzero x List.mem_cons_self
    rw [List.length_cons] at hmax hfinite
    have hmore : n < item.max := by omega
    obtain ⟨hoffers, hstep⟩ :=
      offers_later hshows hone hmore (by omega) (blocks.drop (j + 1))
    have hword : b.word (0 :: places) = e :: b.word places :=
      Block.word_cons (by rw [hone]; rfl) places
    obtain ⟨hafter, hcodes⟩ := ih (n := n + 1)
      (fun y hy => hzero y (List.mem_cons_of_mem _ hy)) (Nat.succ_pos n) (by omega) (by omega)
    rw [hword]
    constructor
    · rw [Block.after, hstep, List.length_cons, Nat.add_comm places.length 1, ← Nat.add_assoc]
      exact hafter
    -- below the maximum the open item keeps the code zero
    · have hmaxAt : n < w.shape.maxAt j := by
        rw [hshape, shapeOf_maxAt contentStart false hj]
        exact hmore
      have hwidth : w.shape.widthAfter j n
          = offerWidth (b.later n :: blocks.drop (j + 1)) := by
        rw [hshape, widthAfter_eq h hregular hj hshows hpos (by omega)]
        split
        · rfl
        · next hbelow =>
          exact (offerWidth_below hshows hone hmore (by omega) (by omega) _).symm
      rw [codesFrom, SeqWriter.codeOf_again (Nat.ne_of_gt hpos) hmaxAt, pathCodes_cons _ hstep,
        hoffers, List.idxOf_cons_self, hwidth, hcodes]

include h hregular hj hshows in
/-- Behind all occurrences of an item. -/
theorem writes_finish {w : SeqWriter} (hshape : w.shape = shapeOf items contentStart false)
    (hdistinct : (Block.alphabet blocks).Nodup) (hb : blocks[j]? = some b) (hpos : 0 < n)
    (hmin : item.min ≤ n) (hmax : n ≤ item.max) (hfinite : n < unbounded) :
    Writes items blocks contentStart (w.finish j n) (b.later n :: blocks.drop (j + 1)) := by
  have hlt := (List.getElem?_eq_some_iff.mp hj).1
  have hreg := hregular item (List.mem_of_getElem? hj)
  have hzero : (b.later n).min = 0 := by
    show b.min - n = 0
    rw [hshows.min]
    omega
  have hclosed := later_max hshows hfinite
  have hapart : ∀ e ∈ Block.alphabet (blocks.drop (j + 1)), e ∉ b.letters := by
    intro e he hin
    obtain ⟨b', hb', -, hdrop⟩ := shows_at h hj
    cases hb.symm.trans hb'
    have hletters : (Block.alphabet (blocks.drop j)).Nodup :=
      hdistinct.sublist ((List.drop_sublist j blocks).flatMap _)
    rw [hdrop, Block.alphabet_cons] at hletters
    exact (List.nodup_append.mp hletters).2.2 e hin e he rfl
  have hbase : (w.finish j n).base = if n < item.max then 1 else 0 := by
    show w.shape.baseAfter j n = _
    unfold Shape.baseAfter
    rw [hshape, shapeOf_maxAt contentStart false hj]
  refine ⟨hshape, hlt, ?_, ?_, fun e he => ?_, ?_⟩
  · rw [hbase, Block.offers, if_pos hzero]
    -- the item may occur again: its own letters come first
    by_cases hmore : n < item.max
    · rw [if_pos hmore, if_neg fun heq => absurd (hclosed.mp heq) (by omega)]
      have hlength : b.letters.length = 1 := by
        rw [hshows.length]
        exact hreg.single.resolve_left (by omega)
      exact ⟨b.letters, hlength, rfl, hapart⟩
    -- it may not, and what comes next is whatever the blocks behind offer
    · rw [if_neg hmore, if_pos (hclosed.mpr (by omega))]
      exact ⟨[], rfl, rfl, fun e _ he => by cases he⟩
  · show (decide ((b.later n).min = 0) && _) = _
    rw [hzero]
    rfl
  · exact Block.step_tail (hapart e he) hzero
  · show w.shape.widthAfter j n = _
    rw [hshape, widthAfter_eq h hregular hj hshows hpos hfinite, if_pos (.inl hmin)]

end Occurrences

/-! ## A run of the writer

By induction from the last item to the first. An item that does not occur leaves the writer where
it was, and one that does takes it behind the item. -/

section Run

variable (h : List.Forall₂ Item.Shows items blocks) (hregular : ∀ item ∈ items, item.Regular)
  (hdistinct : (Block.alphabet blocks).Nodup) {w : SeqWriter} {rest : List (Block Event)} {j : Nat}

include h hregular hdistinct

/-- **One item**, in as many occurrences as it may have. -/
theorem Writes.item (hw : Writes items blocks contentStart w rest) {item : Item} {b : Block Event}
    (hpos : w.pos ≤ j) (hj : items[j]? = some item) (hb : blocks[j]? = some b)
    (hoptional : ∀ k item, w.pos ≤ k → k < j → items[k]? = some item → item.min = 0)
    {places : List Nat} (hadmits : item.Admits places) (hfinite : places.length < unbounded)
    (hne : places ≠ []) :
    ∃ left, Block.after rest (b.word places) = some left
      ∧ codesFrom w j 0 places = pathCodes rest (b.word places)
      ∧ Writes items blocks contentStart (w.finish j places.length) left := by
  obtain ⟨x, places, rfl⟩ := List.exists_cons_of_ne_nil hne
  obtain ⟨b', hb', hshows, hdrop⟩ := shows_at h hj
  cases hb.symm.trans hb'
  have hreg := hregular item (List.mem_of_getElem? hj)
  have hlt := (List.getElem?_eq_some_iff.mp hj).1
  -- the event of the first occurrence is offered behind those of the optional items before it
  have hx : x < b.letters.length := by
    rw [hshows.length]
    exact hadmits.branches x List.mem_cons_self
  obtain ⟨e, he⟩ : ∃ e, b.letters[x]? = some e := ⟨_, List.getElem?_eq_getElem hx⟩
  obtain ⟨hplace, hskip⟩ := skip_to h hregular hdistinct hpos hj hb he hoptional
  have hin : e ∈ Block.alphabet (blocks.drop w.pos) := by
    refine List.mem_flatMap.mpr ⟨b, List.mem_of_getElem? (i := j - w.pos) ?_,
      List.mem_of_getElem? he⟩
    rw [List.getElem?_drop, show w.pos + (j - w.pos) = j by omega]
    exact hb
  have hstep : Block.step rest e = some (b.later 1 :: blocks.drop (j + 1)) := by
    rw [hw.step e hin, hskip, ← Block.later_zero b, Block.next_later, Block.later_zero]
  -- the first occurrence is coded from where the writer stands
  have hfirst : w.codeOf j 0 x = ((Block.offers rest).idxOf e, offerWidth rest) := by
    obtain ⟨again, hlength, hoffers, hapart⟩ := hw.offers
    have hle : before items w.pos ≤ before items j := before_mono hpos
    unfold SeqWriter.codeOf
    rw [if_pos rfl, hw.shape, shapeOf_before items contentStart false hw.pos,
      shapeOf_before items contentStart false (Nat.le_of_lt hlt), hoffers,
      List.idxOf_append_of_notMem (hapart e hin), hplace, hlength, hw.width]
    congr 1
    omega
  have hmax := hadmits.max
  rw [List.length_cons] at hmax hfinite
  rw [Block.word_cons he, codesFrom, hfirst, pathCodes_cons _ hstep]
  -- the others are coded from where the first one has left the writer
  have hlater : Block.after (b.later 1 :: blocks.drop (j + 1)) (b.word places)
        = some (b.later (1 + places.length) :: blocks.drop (j + 1))
      ∧ codesFrom w j 1 places
        = pathCodes (b.later 1 :: blocks.drop (j + 1)) (b.word places) := by
    rcases List.eq_nil_or_concat places with rfl | ⟨_, _, hplaces⟩
    · exact ⟨rfl, rfl⟩
    · -- an item that comes again has one event
      have hmany : 0 < places.length := by
        rw [hplaces, List.length_concat]
        exact Nat.succ_pos _
      have hone : b.letters.length = 1 := by
        rw [hshows.length]
        exact hreg.single.resolve_left (by omega)
      obtain ⟨e', he'⟩ := List.length_eq_one_iff.mp hone
      refine codes_again h hregular hj hshows hw.shape he' (fun y hy => ?_) Nat.one_pos (by omega)
        (by omega)
      have hlt' := hadmits.branches y (List.mem_cons_of_mem _ hy)
      rw [← hshows.length, hone] at hlt'
      omega
  -- what is left is the block after all of them, and the blocks behind it
  refine ⟨b.later (1 + places.length) :: blocks.drop (j + 1), ?_, ?_, ?_⟩
  · rw [Block.after, hstep]
    exact hlater.1
  · rw [hlater.2]
  · have hmin := hadmits.min
    rw [List.length_cons] at hmin ⊢
    rw [Nat.add_comm 1]
    exact writes_finish h hregular hj hshows hw.shape hdistinct hb (Nat.succ_pos _) hmin hmax
      hfinite

/-- **The items from one on, and the end.** -/
theorem Writes.all (hw : Writes items blocks contentStart w rest) (hpos : w.pos ≤ j)
    (hoptional : ∀ k item, w.pos ≤ k → k < j → items[k]? = some item → item.min = 0)
    {counts : List (List Nat)} (hadmits : List.Forall₂ Item.Admits (items.drop j) counts)
    (hfinite : ∀ places ∈ counts, places.length < unbounded) :
    ∃ left,
      Block.after rest (List.zipWith Block.word (blocks.drop j) counts).flatten = some left
        ∧ Block.ends left = true
        ∧ allCodes w j counts
          = pathCodes rest (List.zipWith Block.word (blocks.drop j) counts).flatten
            ++ [closeCode left] := by
  induction counts generalizing w rest j with
  | nil =>
    -- behind the last item: nothing is required from the position on, so the blocks may end
    have hend : items.drop j = [] := List.forall₂_nil_right_iff.mp hadmits
    have hle : items.length ≤ j := List.drop_eq_nil_iff.mp hend
    have hdrop : blocks.drop j = [] := List.drop_eq_nil_of_le (h.length_eq ▸ hle)
    rw [hdrop]
    obtain ⟨again, hlength, hoffers, -⟩ := hw.offers
    obtain ⟨hsize, hends⟩ := offers_drop h hregular hw.pos
    -- all that is ahead of the position is optional
    have hrequired : firstRequired items w.pos = items.length := by
      rw [firstRequired_eq hw.pos (fun k item hk hlt => hoptional k item hk (by omega)) le_rfl,
        firstRequired_of_nil items (List.getElem?_eq_none le_rfl)]
    have hset : firstSetEnd items w.pos = items.length := by
      unfold firstSetEnd
      rw [if_neg (by omega)]
    refine ⟨rest, rfl, ?_, ?_⟩
    · rw [hw.ends, hends]
      exact decide_eq_true hrequired
    -- the end's code is behind everything that is offered
    · have hle' : before items w.pos ≤ before items items.length := before_mono hw.pos
      have hcode : w.endCode = closeCode rest := by
        unfold SeqWriter.endCode closeCode
        rw [hw.shape, shapeOf_total, shapeOf_before items contentStart false hw.pos, hoffers,
          List.length_append, hlength, hsize, hset, hw.width]
        congr 1
        omega
      show [w.endCode] = [closeCode rest]
      rw [hcode]
  | cons places counts ih =>
    obtain ⟨item, tail, hitem, htail, hdrop⟩ := List.forall₂_cons_right_iff.mp hadmits
    have hlt : j < items.length := by
      by_contra hge
      rw [List.drop_eq_nil_of_le (Nat.le_of_not_lt hge)] at hdrop
      cases hdrop
    rw [List.drop_eq_getElem_cons hlt] at hdrop
    obtain ⟨rfl, rfl⟩ := List.cons.inj hdrop
    have hj : items[j]? = some items[j] := List.getElem?_eq_getElem hlt
    obtain ⟨b, hb, -, hblocks⟩ := shows_at h hj
    have hlater : ∀ bs ∈ counts, bs.length < unbounded := fun bs hbs =>
      hfinite bs (List.mem_cons_of_mem _ hbs)
    rw [hblocks, List.zipWith_cons_cons, List.flatten_cons, allCodes]
    by_cases hnone : places = []
    · -- the item is left out
      subst hnone
      have hmin : items[j].min = 0 := Nat.le_zero.mp hitem.min
      refine ih hw (Nat.le_succ_of_le hpos) (fun k item hk hkj hget => ?_) htail hlater
      by_cases heq : k = j
      · subst heq
        cases hj.symm.trans hget
        exact hmin
      · exact hoptional k item hk (by omega) hget
    -- the item is there: it takes the writer behind it, from where the rest is written
    · obtain ⟨mid, hafter, hcodes, hw'⟩ := hw.item h hregular hdistinct hpos hj hb hoptional hitem
        (hfinite places List.mem_cons_self) hnone
      have hfinish : writerAfter w j places = w.finish j places.length :=
        if_pos (List.length_pos_iff.mpr hnone)
      rw [hfinish]
      obtain ⟨left, hleft, hends, hrest⟩ := ih hw' (j := j + 1) le_rfl
        (fun k item hk hlt' => absurd (hk.trans_lt hlt') (lt_irrefl _)) htail hlater
      refine ⟨left, ?_, hends, ?_⟩
      · rw [Block.after_append, hafter]
        exact hleft
      · rw [hcodes, hrest, pathCodes_append _ hafter, List.append_assoc]

end Run

end Writer

/-! ## The instances of a type

Occurrences with their branches on the one side and words of the grammar on the other: every
instance has a word, and every word is one's. -/

/-- What the event of an occurrence is expected to be. -/
def expectedAt (items : List Item) (o : Occurrence) : Option Expected :=
  (items[o.index]?).bind fun item => (expectedEvents item)[o.branch]?

/-- The events of an instance: one for each of its occurrences, and what is expected of it. -/
def Written (items : List Item) (counts : List (List Nat)) (w : List Event) : Prop :=
  List.Forall₂ (fun o e => ∃ x, expectedAt items o = some x ∧ eventMatches x e = true)
    (allOccurrences 0 counts) w

section Instances

variable {items : List Item} {blocks : List (Block Event)}

theorem written_from {j c : Nat} {item : Item} {b : Block Event} (hj : items[j]? = some item)
    (hshows : item.Shows b) {places : List Nat} (hplaces : ∀ x ∈ places, x < item.productions) :
    List.Forall₂ (fun o e => ∃ x, expectedAt items o = some x ∧ eventMatches x e = true)
      (occurrencesFrom j c places) (b.word places) := by
  induction places generalizing c with
  | nil => exact .nil
  | cons x places ih =>
    have hx := hplaces x List.mem_cons_self
    have hletter : x < b.letters.length := by rwa [hshows.length]
    have hexpected : x < (expectedEvents item).length := by rwa [length_expectedEvents]
    rw [Block.word_cons (List.getElem?_eq_getElem hletter)]
    refine .cons ⟨(expectedEvents item)[x], ?_, hshows.letters.get hexpected hletter⟩
      (ih fun y hy => hplaces y (List.mem_cons_of_mem _ hy))
    unfold expectedAt
    rw [hj]
    exact List.getElem?_eq_getElem hexpected

/-- The word of an instance is written for it. -/
theorem written_word (h : List.Forall₂ Item.Shows items blocks) {j : Nat}
    {counts : List (List Nat)} (hadmits : List.Forall₂ Item.Admits (items.drop j) counts) :
    List.Forall₂ (fun o e => ∃ x, expectedAt items o = some x ∧ eventMatches x e = true)
      (allOccurrences j counts) (List.zipWith Block.word (blocks.drop j) counts).flatten := by
  induction counts generalizing j with
  | nil =>
    rw [List.zipWith_nil_right]
    exact .nil
  | cons places counts ih =>
    obtain ⟨item, tail, hitem, htail, hdrop⟩ := List.forall₂_cons_right_iff.mp hadmits
    have hlt : j < items.length := by
      by_contra hge
      rw [List.drop_eq_nil_of_le (Nat.le_of_not_lt hge)] at hdrop
      cases hdrop
    rw [List.drop_eq_getElem_cons hlt] at hdrop
    obtain ⟨rfl, rfl⟩ := List.cons.inj hdrop
    have hj : items[j]? = some items[j] := List.getElem?_eq_getElem hlt
    obtain ⟨b, -, hshows, hblocks⟩ := shows_at h hj
    rw [hblocks, List.zipWith_cons_cons, List.flatten_cons, allOccurrences]
    exact List.rel_append
      (R := fun o e => ∃ x, expectedAt items o = some x ∧ eventMatches x e = true)
      (written_from hj hshows hitem.branches) (ih htail)

/-- Every word of the blocks is that of an instance. -/
theorem exists_counts (h : List.Forall₂ Item.Shows items blocks) {w : List Event}
    (hw : w ∈ Block.content blocks) (hfinite : w.length < unbounded) :
    ∃ counts, List.Forall₂ Item.Admits items counts
      ∧ (∀ places ∈ counts, places.length < unbounded)
      ∧ (List.zipWith Block.word blocks counts).flatten = w := by
  -- induction on the items, with the word that is left for them
  induction h generalizing w with
  | nil =>
    obtain rfl : w = [] := hw
    exact ⟨[], .nil, (fun places hplaces => by cases hplaces), rfl⟩
  | @cons item b items blocks hshows _ ih =>
    obtain ⟨u, ⟨hmin, hmax, hall⟩, v, hv, rfl⟩ := hw
    have hlength : u.length + v.length < unbounded := by
      have happend : (u ++ v).length = u.length + v.length := List.length_append
      rw [← happend]
      exact hfinite
    obtain ⟨counts, hadmits, hfinites, hwords⟩ := ih hv (by omega)
    have hbound : u.length ≤ item.max := by
      rw [hshows.max] at hmax
      unfold boundOf at hmax
      split at hmax
      · omega
      · exact hmax _ rfl
    -- each event is counted under its place among the letters of its block
    refine ⟨u.map b.letters.idxOf :: counts, .cons ⟨?_, ?_, fun x hx => ?_⟩ hadmits, ?_, ?_⟩
    · rwa [List.length_map, ← hshows.min]
    · rwa [List.length_map]
    · obtain ⟨e, he, rfl⟩ := List.mem_map.mp hx
      rw [← hshows.length]
      exact List.idxOf_lt_length_of_mem (hall e he)
    · intro places hplaces
      rcases List.mem_cons.mp hplaces with rfl | hplaces
      · rw [List.length_map]
        omega
      · exact hfinites places hplaces
    · rw [List.zipWith_cons_cons, List.flatten_cons, Block.word_idxOf hall, hwords]

/-- The end of an element is not among the events that are expected. -/
theorem endElement_not_mem (h : List.Forall₂ Item.Shows items blocks) :
    .endElement ∉ Block.alphabet blocks := by
  have hnone : ∀ {xs : List Expected} {es : List Event},
      List.Forall₂ (fun x e => eventMatches x e = true) xs es → .endElement ∉ es := by
    intro xs es hmatches
    induction hmatches with
    | nil => exact List.not_mem_nil
    | @cons x e xs es hmatch _ ih =>
      intro hin
      rcases List.mem_cons.mp hin with rfl | hin
      · cases x <;> cases hmatch
      · exact ih hin
  exact hnone (matches_alphabet h)

end Instances

/-- **Layouts refine grammars.** A type that can be laid out, with its codes apart, has a grammar.
Whatever is written for an instance, with any occurrence counts within the bounds and any branches,
is the codes and widths along the path of the instance's events; and the codes of every path to the
end of the element are written for some instance. A count that is bounded by no schema has to stay
below the number that says so. -/
theorem codes_refine_grammar {schema : Schema} {ct : ComplexType} {l : Layout}
    (hl : Layout.of schema ct = .ok l) (h : Refinable schema ct l.items) :
    ∃ g, Builder.complexType schema ct = .ok g
      ∧ (∀ counts, List.Forall₂ Item.Admits l.items counts →
          (∀ places ∈ counts, places.length < unbounded) →
          ∃ w, Written l.items counts w ∧ g.Codes 0 w (allCodes (.new l.shape) 0 counts))
      ∧ ∀ w codes, w.length < unbounded → g.Codes 0 w codes →
          ∃ counts, List.Forall₂ Item.Admits l.items counts ∧ Written l.items counts w
            ∧ codes = allCodes (.new l.shape) 0 counts := by
  obtain ⟨contentStart, blocks, g, hlayout, hg, hshows, hdistinct, htracks⟩ :=
    tracks_of_refinable hl h
  have hshape : l.shape = shapeOf l.items contentStart false := congrArg Layout.shape hlayout
  have hsound := sound_of_shows hshows h.regular
  have hlabels := endElement_not_mem hshows
  -- what is written for an instance, by the blocks its word leaves
  have hwrite : ∀ counts, List.Forall₂ Item.Admits l.items counts →
      (∀ places ∈ counts, places.length < unbounded) →
      ∃ left, Block.after blocks (List.zipWith Block.word blocks counts).flatten = some left
        ∧ Block.ends left = true ∧ allCodes (.new l.shape) 0 counts
          = pathCodes blocks (List.zipWith Block.word blocks counts).flatten
            ++ [closeCode left] := by
    intro counts hadmits hfinite
    rw [hshape]
    exact (writes_new hshows h.regular).all hshows h.regular hdistinct (j := 0) (Nat.zero_le _)
      (fun k item hk hlt => absurd hlt (Nat.not_lt_zero k)) hadmits hfinite
  refine ⟨g, hg, fun counts hadmits hfinite => ?_, fun w codes hfinite hcodes => ?_⟩
  · exact ⟨_, written_word hshows (j := 0) hadmits,
      (codes_iff htracks hdistinct hlabels hsound _ .start rfl).mpr (hwrite counts hadmits hfinite)⟩
  · obtain ⟨left, hleft, hends, rfl⟩ :=
      (codes_iff htracks hdistinct hlabels hsound _ .start rfl).mp hcodes
    have hword : w ∈ Block.content blocks := by
      have hwords := (Block.left_after hdistinct hsound hleft).2.2 []
      rw [List.append_nil] at hwords
      exact hwords.mpr (Block.nil_mem_content.mpr hends)
    obtain ⟨counts, hadmits, hfinites, rfl⟩ := exists_counts hshows hword hfinite
    obtain ⟨left', hleft', -, hall⟩ := hwrite counts hadmits hfinites
    cases hleft.symm.trans hleft'
    exact ⟨counts, hadmits, written_word hshows (j := 0) hadmits, hall.symm⟩

/-- An optional attribute, a choice that may be left out, and an element that repeats. -/
def readingType : ComplexType where
  base := none
  derivation := .none
  particle := some (.sequence
    [elementNamed "MeterID" 1 1, .choice [elementNamed "Sum" 1 1, elementNamed "Detail" 1 1] 0 1,
      elementNamed "Status" 1 3] 1 1)
  attributes := [⟨⟨"Id", ""⟩, .named ⟨"t", ""⟩, false⟩]
  mixed := false
  simpleContent := none

def readingItems : List Item :=
  [.attribute ⟨⟨"Id", ""⟩, .named ⟨"t", ""⟩, 0, 1⟩,
    .element ⟨⟨"MeterID", ""⟩, .named ⟨"t", ""⟩, 1, 1⟩,
    .choice [.element ⟨⟨"Sum", ""⟩, .named ⟨"t", ""⟩, 1, 1⟩,
      .element ⟨⟨"Detail", ""⟩, .named ⟨"t", ""⟩, 1, 1⟩] 0 1,
    .element ⟨⟨"Status", ""⟩, .named ⟨"t", ""⟩, 1, 3⟩]

theorem of_readingType : Layout.of noTypes readingType = .ok (.ofItems readingItems 1 false) := by
  rfl

theorem refinable_readingType : Refinable noTypes readingType readingItems where
  unmixed := rfl
  branches _ particles h := by
    cases h
    refine ⟨⟨trivial, fun p hp => ?_, trivial, trivial⟩, trivial⟩
    rcases List.mem_pair.mp hp with rfl | rfl <;> exact ⟨rfl, rfl⟩
  regular item hitem := by
    have hbounds : ∀ i ∈ readingItems, (i.min ≤ i.max ∧ i.min ≤ maxUnroll ∧ i.max ≤ maxUnroll)
        ∧ 0 < i.max ∧ 0 < i.productions ∧ (i.max ≤ 1 ∨ i.productions = 1) := by decide
    obtain ⟨⟨hmin, hmin', hmax⟩, hoccurs, hproductions, hsingle⟩ := hbounds item hitem
    exact ⟨⟨hmin, hmin', .inr hmax⟩, hoccurs, hproductions, hsingle⟩
  distinct := by decide
  wildcard := by decide

/-- Without the attribute, with the second branch, and twice the last element. -/
theorem codes_refine_grammar_readingType :
    ∃ g, Builder.complexType noTypes readingType = .ok g
      ∧ ∃ w, Written readingItems [[], [0], [1], [0, 0]] w
        ∧ g.Codes 0 w [(1, 2), (1, 2), (0, 1), (0, 2), (1, 2)] := by
  obtain ⟨g, hg, hwrites, -⟩ := codes_refine_grammar of_readingType refinable_readingType
  have hadmits : List.Forall₂ Item.Admits readingItems [[], [0], [1], [0, 0]] :=
    .cons ⟨by decide, by decide, by decide⟩ (.cons ⟨by decide, by decide, by decide⟩
      (.cons ⟨by decide, by decide, by decide⟩ (.cons ⟨by decide, by decide, by decide⟩ .nil)))
  exact ⟨g, hg, hwrites _ hadmits (by decide)⟩

end Iso15118.Codegen
