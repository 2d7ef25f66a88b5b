import Iso15118.Codegen.Refinement

/-!
# The check of a layout against its grammar

`Layout.verify` walks the grammar of a type along the path on which every item is present, and
compares each width and each code there with its own. On a type whose codes a layout can count it
finds nothing to object to (**`verify_ok`**): what it stops are other types.

The comparison of the source is between two ways of counting, so the proof is that both count the
same blocks: `Refinement` has it that the writer's numbers are those of the blocks left behind what
was written, and `Offers` that the grammar's are. The walk goes along the writer's path for one
instance, the one with every item present, and at each step the two facts meet. Where the source
would panic there is an error of its own here (`orPanic`), and it does not come up.
-/

namespace Iso15118.Codegen

open Lib Exi

/-! ## The walk

The loops of the source, with an error of its own for where they would panic. The walk goes along
one path of the grammar, on which each item occurs as often as it has to and once at least. -/

/-- The errors of `Layout::verify`: its own, those of the grammar, and an index or an `unwrap` that
the source would panic at. -/
inductive VerifyError where
  | layout (e : LayoutError)
  | grammar (e : GrammarError)
  | panicked
  deriving DecidableEq, Repr

/-- Where the walk is: the state of the grammar, `base` and `previous_repeat`. -/
structure Walk where
  state : Nat
  base : Nat
  previousRepeat : Option Nat
  deriving DecidableEq, Repr

/-- What is indexed or unwrapped. -/
def orPanic {α : Type} : Option α → Except VerifyError α
  | some a => .ok a
  | none => .error .panicked

/-- Every alternative of item `j` at its code. -/
def checkEvents (productions : List Production) (j : Nat) : Nat → List Expected →
    Except VerifyError Unit
  | _, [] => .ok ()
  | code, x :: xs =>
      match productions[code]? with
      | none => .error (.layout (.missingProduction j code))
      | some p =>
          if eventMatches x p.event then checkEvents productions j (code + 1) xs
          else .error (.layout (.productionMismatch j code))

namespace Layout

/-- `repeat_width[j].unwrap()`. -/
def repeatWidthAt (l : Layout) (j : Nat) : Option Nat := (l.repeatWidth[j]?).bind id

/-- The width that occurrence `c` of item `j` is expected in. -/
def expectedWidth (l : Layout) (walk : Walk) (j c : Nat) (item : Item) : Option Nat :=
  if c > 0 then if c < item.min then some belowMinWidth else l.repeatWidthAt j
  else if walk.base = 0 then l.width[j]?
  else walk.previousRepeat

/-- `Layout::code_of`. -/
def codeOf (l : Layout) (pos j : Nat) : Nat :=
  l.prodBefore.getD j 0 - l.prodBefore.getD pos 0

/-- The inner loop of `Layout::verify`, for one occurrence. -/
def verifyOccurrence (l : Layout) (g : Grammar) (j : Nat) (item : Item) (c : Nat) (walk : Walk) :
    Except VerifyError Walk := do
  let expected ← orPanic (l.expectedWidth walk j c item)
  let state ← orPanic (g.states[walk.state]?)
  if expected ≠ state.eventWidth then
    .error (.layout (.widthMismatch j expected state.eventWidth))
  else
    let code := if c > 0 then 0 else walk.base + l.codeOf j j
    checkEvents state.productions j code (expectedEvents item)
    let production ← orPanic (state.productions[code]?)
    .ok { walk with state := production.target }

/-- So many occurrences, from the `c`-th on. -/
def verifyOccurrences (l : Layout) (g : Grammar) (j : Nat) (item : Item) : Nat → Nat → Walk →
    Except VerifyError Walk
  | 0, _, walk => .ok walk
  | n + 1, c, walk => do
      let walk ← l.verifyOccurrence g j item c walk
      l.verifyOccurrences g j item n (c + 1) walk

/-- One turn of the outer loop: every item as often as it has to be there, but once at least. -/
def verifyItem (l : Layout) (g : Grammar) (j : Nat) (item : Item) (walk : Walk) :
    Except VerifyError Walk := do
  let occurrences := Nat.max item.min 1
  let walk ← l.verifyOccurrences g j item occurrences 0 walk
  if occurrences < item.max then
    let previous ← orPanic (l.repeatWidthAt j)
    .ok { walk with base := 1, previousRepeat := some previous }
  else .ok { walk with base := 0, previousRepeat := none }

def verifyItems (l : Layout) (g : Grammar) : Nat → List Item → Walk → Except VerifyError Walk
  | _, [], walk => .ok walk
  | j, item :: items, walk => do
      let walk ← l.verifyItem g j item walk
      l.verifyItems g (j + 1) items walk

/-- `Layout::verify`. -/
def verify (l : Layout) (schema : Schema) (ct : ComplexType) : Except VerifyError Unit := do
  let g ← (Builder.complexType schema ct).mapError .grammar
  let walk ← l.verifyItems g 0 l.items ⟨0, 0, none⟩
  let last := l.items.length
  let expected ← orPanic (if walk.base = 0 then l.width[last]? else walk.previousRepeat)
  let state ← orPanic (g.states[walk.state]?)
  if expected ≠ state.eventWidth then
    .error (.layout (.widthMismatch last expected state.eventWidth))
  else .ok ()

end Layout

/-! ## The walk is along a path of the writer's

What the writer does item by item is what the walk expects, so every comparison it makes comes
out equal. By induction from the last item to the first, as for the writer. -/

section Walks

variable (g : Grammar) (items : List Item) (blocks : List (Block Event)) (contentStart : Nat)

/-- The walk in front of item `j`, and what is left of the blocks there. -/
structure Walks (j : Nat) (walk : Walk) (u : List Event) (rest : List (Block Event))
    (w : SeqWriter) : Prop where
  arrives : g.Arrives u walk.state
  left : Block.after blocks u = some rest
  writes : Writes items blocks contentStart w rest
  pos : w.pos = j
  base : w.base = walk.base
  width : (if walk.base = 0 then (Layout.ofItems items contentStart false).width[j]?
    else walk.previousRepeat) = some (offerWidth rest)

variable {g items blocks contentStart}

theorem checkEvents_ok {productions : List Production} {j code : Nat} {xs : List Expected}
    {es : List Event} (hmatches : List.Forall₂ (fun x e => eventMatches x e = true) xs es)
    (h : ∀ i e, es[i]? = some e →
      ∃ p, productions[code + i]? = some p ∧ p.event = e) :
    checkEvents productions j code xs = .ok () := by
  induction hmatches generalizing code with
  | nil => rfl
  | @cons x e xs es hmatch _ ih =>
    obtain ⟨p, hp, rfl⟩ := h 0 e rfl
    rw [Nat.add_zero] at hp
    rw [checkEvents, hp]
    show (if eventMatches x p.event = true then _ else _) = _
    rw [if_pos hmatch]
    refine ih fun i e he => ?_
    rw [Nat.add_assoc, Nat.add_comm 1 i]
    exact h (i + 1) e he

theorem width_ofItems {i : Nat} (hi : i ≤ items.length) :
    (Layout.ofItems items contentStart false).width[i]?
      = some (positionWidth items contentStart false i) := by
  show ((List.range (items.length + 1)).map _)[i]? = _
  rw [List.getElem?_map, List.getElem?_range (Nat.lt_succ_of_le hi)]
  rfl

theorem repeatWidthAt_ofItems (contentStart : Nat) {j : Nat} {item : Item}
    (hj : items[j]? = some item) (hmany : 1 < item.max) :
    (Layout.ofItems items contentStart false).repeatWidthAt j
      = some (repeatedWidth items contentStart false j item) := by
  unfold Layout.repeatWidthAt
  show ((items.zipIdx.map _)[j]?).bind id = _
  rw [List.getElem?_map, List.getElem?_zipIdx, hj]
  show (if item.max > 1 then _ else _) = _
  rw [if_pos hmany, Nat.zero_add]

/-- One occurrence, where its events are offered at the code that is looked at. -/
theorem verifyOccurrence_ok (htracks : g.Tracks blocks)
    (hlabels : .endElement ∉ Block.alphabet blocks) {l : Layout} {j c : Nat} {item : Item}
    {b : Block Event} (hshows : item.Shows b) {walk : Walk} {u : List Event}
    {rest left : List (Block Event)} (harrives : g.Arrives u walk.state)
    (hrest : Block.after blocks u = some rest)
    (hwidth : l.expectedWidth walk j c item = some (offerWidth rest))
    {before after : List Event} (hoffers : Block.offers rest = before ++ (b.letters ++ after))
    (hcode : (if c > 0 then 0 else walk.base + l.codeOf j j) = before.length) {e : Event}
    (he : b.letters[0]? = some e) (hin : e ∈ Block.alphabet blocks)
    (hstep : Block.step rest e = some left) :
    ∃ t, l.verifyOccurrence g j item c walk = .ok { walk with state := t }
      ∧ g.Arrives (u ++ [e]) t ∧ Block.after blocks (u ++ [e]) = some left := by
  obtain ⟨s, rest', hs, hrest', hevents⟩ := htracks harrives
  cases hrest.symm.trans hrest'
  -- what the state offers is what the blocks offer
  have hproduction : ∀ i e, b.letters[i]? = some e →
      ∃ p, s.productions[before.length + i]? = some p ∧ p.event = e := by
    intro i e he
    have hlt := (List.getElem?_eq_some_iff.mp he).1
    have hk : (s.productions.map Production.event)[before.length + i]? = some e := by
      rw [hevents, hoffers, List.append_assoc,
        List.getElem?_append_right (Nat.le_add_right ..), Nat.add_sub_cancel_left,
        List.append_assoc, List.getElem?_append_left hlt]
      exact he
    rw [List.getElem?_map] at hk
    exact Option.map_eq_some_iff.mp hk
  obtain ⟨p, hp, rfl⟩ := hproduction 0 e he
  have hend : p.event ≠ .endElement := fun h => hlabels (h ▸ hin)
  refine ⟨p.target, ?_, harrives.step hs (List.mem_of_getElem? hp) hend, ?_⟩
  -- the width and the code of the layout are those of the grammar
  · unfold Layout.verifyOccurrence
    rw [hwidth, hs, hcode]
    show (if offerWidth rest ≠ s.eventWidth then _ else _) = _
    rw [if_neg fun h => h (eventWidth_of_offers hevents).symm,
      checkEvents_ok hshows.letters hproduction]
    rw [Nat.add_zero] at hp
    show (do
      let production ← orPanic (s.productions[before.length]?)
      Except.ok { walk with state := production.target }) = _
    rw [hp]
    rfl
  · rw [after_concat hrest]
    exact hstep

section Occurrences

variable (htracks : g.Tracks blocks) (hlabels : .endElement ∉ Block.alphabet blocks) {j : Nat}
  {item : Item} {b : Block Event} (hb : blocks[j]? = some b) (hshows : item.Shows b)

include htracks hlabels hb hshows

/-- The later occurrences that an item has to have. -/
theorem verifyOccurrences_later {l : Layout} {n c : Nat} {e : Event} (hone : b.letters = [e])
    (hpos : 0 < c) (hmin : c + n ≤ item.min) (hmax : item.min ≤ item.max)
    (hfinite : item.min < unbounded) {walk : Walk} {u : List Event}
    (harrives : g.Arrives u walk.state)
    (hrest : Block.after blocks u = some (b.later c :: blocks.drop (j + 1))) :
    ∃ t u', l.verifyOccurrences g j item n c walk = .ok { walk with state := t }
      ∧ g.Arrives u' t
      ∧ Block.after blocks u' = some (b.later (c + n) :: blocks.drop (j + 1)) := by
  induction n generalizing c walk u with
  | zero => exact ⟨walk.state, u, rfl, harrives, hrest⟩
  | succ n ih =>
    have hmore : c < item.max := by omega
    obtain ⟨hoffers, hstep⟩ :=
      offers_later hshows hone hmore (by omega) (blocks.drop (j + 1))
    have hin : e ∈ Block.alphabet blocks :=
      List.mem_flatMap.mpr ⟨b, List.mem_of_getElem? hb, by
        rw [hone]
        exact List.mem_singleton_self e⟩
    -- below the minimum the layout expects the repeat alone
    have hwidth : l.expectedWidth walk j c item
        = some (offerWidth (b.later c :: blocks.drop (j + 1))) := by
      unfold Layout.expectedWidth
      rw [if_pos hpos, if_pos (by omega),
        offerWidth_below hshows hone hmore (by omega) (by omega)]
    have hall : Block.offers (b.later c :: blocks.drop (j + 1)) = [] ++ (b.letters
        ++ if item.min ≤ c then Block.offers (blocks.drop (j + 1)) else []) := by
      rw [hoffers, hone]
      rfl
    obtain ⟨t, hverify, harrives', hrest'⟩ := verifyOccurrence_ok htracks hlabels hshows harrives
      hrest hwidth hall (if_pos hpos) (by rw [hone]; rfl) hin hstep
    have harrives'' : g.Arrives (u ++ [e]) (Walk.state { walk with state := t }) := harrives'
    obtain ⟨t', u', hverifies, hall⟩ := ih (Nat.succ_pos c) (by omega) harrives'' hrest'
    refine ⟨t', u', ?_, hall.1, ?_⟩
    · rw [Layout.verifyOccurrences, hverify]
      exact hverifies
    · rw [Nat.add_comm n 1, ← Nat.add_assoc]
      exact hall.2

end Occurrences

section Items

variable (h : List.Forall₂ Item.Shows items blocks) (hregular : ∀ item ∈ items, item.Regular)
  (hdistinct : (Block.alphabet blocks).Nodup) (htracks : g.Tracks blocks)
  (hlabels : .endElement ∉ Block.alphabet blocks)

include h hregular hdistinct htracks hlabels

/-- An item, as often as it has to be there and once at least. -/
theorem Walks.item {j : Nat} {walk : Walk} {u : List Event} {rest : List (Block Event)}
    {w : SeqWriter} (hw : Walks g items blocks contentStart j walk u rest w) {item : Item}
    (hj : items[j]? = some item) :
    ∃ walk' u' rest' w', (Layout.ofItems items contentStart false).verifyItem g j item walk
        = .ok walk'
      ∧ Walks g items blocks contentStart (j + 1) walk' u' rest' w' := by
  -- the block of the item, and its first letter, which the widths are for
  obtain ⟨b, hb, hshows, hdrop⟩ := shows_at h hj
  have hreg := hregular item (List.mem_of_getElem? hj)
  have hlt := (List.getElem?_eq_some_iff.mp hj).1
  obtain ⟨hmin, hminUnroll, -⟩ := hreg.unrolled
  have hfinite : Nat.max item.min 1 < unbounded := by
    have hle : Nat.max item.min 1 ≤ maxUnroll := Nat.max_le.mpr ⟨hminUnroll, by decide⟩
    exact hle.trans_lt (by decide)
  have hletters : 0 < b.letters.length := by
    rw [hshows.length]
    exact hreg.productions
  obtain ⟨e, he⟩ : ∃ e, b.letters[0]? = some e := ⟨_, List.getElem?_eq_getElem hletters⟩
  -- what the automaton offers here: more of the item before, then this item, then what is behind it
  obtain ⟨again, hagain, hoffers, -⟩ := hw.writes.offers
  rw [hw.pos] at hoffers
  have hin : e ∈ Block.alphabet (blocks.drop j) := by
    rw [hdrop, Block.alphabet_cons]
    exact List.mem_append_left _ (List.mem_of_getElem? he)
  have hnone : ∀ k i, j ≤ k → k < j → items[k]? = some i → i.min = 0 :=
    fun k i hk hkj => absurd (hk.trans_lt hkj) (lt_irrefl _)
  have hstep : Block.step rest e = some (b.later 1 :: blocks.drop (j + 1)) := by
    have hsame := hw.writes.step e (hw.pos ▸ hin)
    rw [hw.pos] at hsame
    rw [hsame, (skip_to h hregular hdistinct le_rfl hj hb he hnone).2, ← Block.later_zero b,
      Block.next_later, Block.later_zero]
  have hwidth : (Layout.ofItems items contentStart false).expectedWidth walk j 0 item
      = some (offerWidth rest) := hw.width
  have hoffered : Block.offers rest = again ++ (b.letters
      ++ if item.min = 0 then Block.offers (blocks.drop (j + 1)) else []) := by
    rw [hoffers, hdrop, offers_cons_of_regular hshows hreg]
  -- the first occurrence has the code and the width that the layout has computed
  obtain ⟨t, hfirst, harrives, hrest⟩ := verifyOccurrence_ok htracks hlabels hshows hw.arrives
    hw.left hwidth hoffered
    (by rw [if_neg (lt_irrefl 0), hagain, hw.base]; exact congrArg _ (Nat.sub_self _)) he
    ((List.drop_sublist j blocks).flatMap _ |>.subset hin) hstep
  -- what more there has to be
  have hlater : ∃ t' u', (Layout.ofItems items contentStart false).verifyOccurrences g j item
        (Nat.max item.min 1) 0 walk = .ok { walk with state := t' }
      ∧ g.Arrives u' t' ∧ Block.after blocks u'
        = some (b.later (Nat.max item.min 1) :: blocks.drop (j + 1)) := by
    by_cases hmany : 1 < item.min
    · have hmax : Nat.max item.min 1 = item.min := Nat.max_eq_left hmany.le
      have hlength : b.letters.length = 1 := by
        rw [hshows.length]
        exact hreg.single.resolve_left (by omega)
      obtain ⟨e', he'⟩ := List.length_eq_one_iff.mp hlength
      have harrives' : g.Arrives (u ++ [e]) (Walk.state { walk with state := t }) := harrives
      obtain ⟨t', u', hverify, harrives', hrest'⟩ := verifyOccurrences_later htracks hlabels hb
        hshows (l := .ofItems items contentStart false) (n := item.min - 1) he' Nat.one_pos
        (by omega) hmin (by rwa [hmax] at hfinite) harrives' hrest
      refine ⟨t', u', ?_, harrives', ?_⟩
      · rw [hmax, show item.min = item.min - 1 + 1 by omega, Layout.verifyOccurrences, hfirst]
        exact hverify
      · rw [hmax, hrest', show 1 + (item.min - 1) = item.min by omega]
    · have hmax : Nat.max item.min 1 = 1 := Nat.max_eq_right (Nat.le_of_not_lt hmany)
      rw [hmax]
      refine ⟨t, _, ?_, harrives, hrest⟩
      rw [Layout.verifyOccurrences, hfirst]
      rfl
  -- behind the occurrences that have to be there, the walk goes on as the writer does
  obtain ⟨t', u', hverify, harrives', hrest'⟩ := hlater
  have hone : 0 < Nat.max item.min 1 := Nat.lt_of_lt_of_le Nat.one_pos (Nat.le_max_right ..)
  have hle : Nat.max item.min 1 ≤ item.max := Nat.max_le.mpr ⟨hmin, hreg.occurs⟩
  have hfinish := writes_finish h hregular hj hshows hw.writes.shape hdistinct hb hone
    (Nat.le_max_left ..) hle hfinite
  have hbase : (w.finish j (Nat.max item.min 1)).base
      = if Nat.max item.min 1 < item.max then 1 else 0 := by
    show w.shape.baseAfter j _ = _
    unfold Shape.baseAfter
    rw [hw.writes.shape, shapeOf_maxAt contentStart false hj]
  have hwidth' := hfinish.width
  rw [show (w.finish j (Nat.max item.min 1)).width
      = w.shape.widthAfter j (Nat.max item.min 1) from rfl, hw.writes.shape] at hwidth'
  unfold Shape.widthAfter at hwidth'
  rw [shapeOf_maxAt contentStart false hj, shapeOf_minAt contentStart false hj] at hwidth'
  -- open for more, it checks the width of one more; and otherwise that of the next item
  by_cases hmore : Nat.max item.min 1 < item.max
  · have hrepeat := repeatWidthAt_ofItems contentStart hj
      (Nat.lt_of_le_of_lt (Nat.le_max_right ..) hmore)
    rw [if_pos hmore, if_neg (Nat.not_lt.mpr (Nat.le_max_left ..)),
      shapeOf_repeatWidthAt contentStart false hj
        (Nat.lt_of_le_of_lt (Nat.le_max_right ..) hmore)] at hwidth'
    rw [if_pos hmore] at hbase
    refine ⟨⟨t', 1, some (repeatedWidth items contentStart false j item)⟩, u', _, _,
      bind_eq_ok.mpr ⟨{ walk with state := t' }, hverify, ?_⟩, harrives', hrest', hfinish, rfl,
      hbase, ?_⟩
    · show (if Nat.max item.min 1 < item.max then _ else _) = _
      rw [if_pos hmore, hrepeat]
      rfl
    · show some _ = _
      rw [hwidth']
  · rw [if_neg hmore, shapeOf_widthAt items contentStart false hlt] at hwidth'
    rw [if_neg hmore] at hbase
    refine ⟨⟨t', 0, none⟩, u', _, _, bind_eq_ok.mpr ⟨{ walk with state := t' }, hverify, ?_⟩,
      harrives', hrest', hfinish, rfl, hbase, ?_⟩
    · show (if Nat.max item.min 1 < item.max then _ else _) = _
      rw [if_neg hmore]
    · show (Layout.ofItems items contentStart false).width[j + 1]? = _
      rw [width_ofItems hlt, hwidth']

/-- All items from one on. -/
theorem Walks.all {j : Nat} {walk : Walk} {u : List Event} {rest : List (Block Event)}
    {w : SeqWriter} (hw : Walks g items blocks contentStart j walk u rest w)
    (hj : j ≤ items.length) :
    ∃ walk' u' rest' w', (Layout.ofItems items contentStart false).verifyItems g j (items.drop j)
        walk = .ok walk'
      ∧ Walks g items blocks contentStart items.length walk' u' rest' w' := by
  obtain ⟨n, hn⟩ : ∃ n, items.length - j = n := ⟨_, rfl⟩
  induction n generalizing j walk u rest w with
  | zero =>
    obtain rfl : j = items.length := by omega
    rw [List.drop_length]
    exact ⟨walk, u, rest, w, rfl, hw⟩
  | succ n ih =>
    have hlt : j < items.length := by omega
    obtain ⟨walk₁, u₁, rest₁, w₁, hitem, hw₁⟩ := hw.item h hregular hdistinct htracks hlabels
      (List.getElem?_eq_getElem hlt)
    obtain ⟨walk', u', rest', w', hitems, hw'⟩ := ih hw₁ hlt (by omega)
    refine ⟨walk', u', rest', w', ?_, hw'⟩
    rw [List.drop_eq_getElem_cons hlt, Layout.verifyItems, hitem]
    exact hitems

end Items

end Walks

/-- **The check passes** on every type that can be laid out with its codes apart: no width, no code
and no event differs from the grammar's on its way, it never runs past what there is, and neither
does the grammar fail. -/
theorem verify_ok {schema : Schema} {ct : ComplexType} {l : Layout}
    (hl : Layout.of schema ct = .ok l) (h : Refinable schema ct l.items) :
    l.verify schema ct = .ok () := by
  obtain ⟨contentStart, blocks, g, hlayout, hg, hshows, hdistinct, htracks⟩ :=
    tracks_of_refinable hl h
  have hlabels := endElement_not_mem hshows
  generalize l.items = items at hlayout h hshows
  subst hlayout
  have hregular := h.regular
  have hnew : Writes items blocks contentStart _ blocks := writes_new hshows hregular
  have hstart : Walks g items blocks contentStart 0 ⟨0, 0, none⟩ [] blocks
      (.new (shapeOf items contentStart false)) := by
    refine ⟨.start, rfl, hnew, rfl, rfl, ?_⟩
    show (Layout.ofItems items contentStart false).width[0]? = _
    rw [width_ofItems (Nat.zero_le _), positionWidth_eq hshows hregular (Nat.zero_le _)]
    rfl
  obtain ⟨walk, u, rest, w, hitems, hend⟩ :=
    hstart.all hshows hregular hdistinct htracks hlabels (Nat.zero_le _)
  obtain ⟨s, rest', hs, hrest', hevents⟩ := htracks hend.arrives
  cases hend.left.symm.trans hrest'
  refine bind_eq_ok.mpr ⟨g, mapError_eq_ok.mpr hg, bind_eq_ok.mpr ⟨walk, hitems,
    bind_eq_ok.mpr ⟨offerWidth rest, ?_, bind_eq_ok.mpr ⟨s, ?_, ?_⟩⟩⟩⟩
  · show orPanic (if walk.base = 0
      then (Layout.ofItems items contentStart false).width[items.length]?
      else walk.previousRepeat) = _
    rw [hend.width]
    rfl
  · rw [hs]
    rfl
  · rw [if_neg fun hne => hne (eventWidth_of_offers hevents).symm]

/-- The check of the sample type. -/
theorem verify_ok_readingType :
    (Layout.ofItems readingItems 1 false).verify noTypes readingType = .ok () :=
  verify_ok of_readingType refinable_readingType

end Iso15118.Codegen
