import Iso15118.Codegen.Xsd
import Iso15118.Exi.Sequence

/-!
# Layouts

Code is not generated from the grammar of a type but from a list of items: the attributes, then the
character data or the content model, flattened. `Layout.compute` is the arithmetic that gives each
position of the list its event codes and widths, and `Layout.shape` what of it goes into the
generated code.
-/

namespace Iso15118.Codegen

open Iso15118.Exi

/-- `Field`. -/
structure Field where
  name : QName
  typeRef : TypeRef
  min : Nat
  max : Nat
  deriving DecidableEq, Repr

/-- `Branch`. -/
inductive Branch where
  | element (f : Field)
  | wildcard
  deriving DecidableEq, Repr

/-- `Item`. -/
inductive Item where
  | attribute (f : Field)
  | element (f : Field)
  | characters (typeRef : TypeRef)
  | wildcard (min max : Nat)
  | choice (branches : List Branch) (min max : Nat)
  deriving DecidableEq, Repr

namespace Item

/-- `Item::productions`. -/
def productions : Item → Nat
  | .attribute _ | .element _ | .characters _ | .wildcard _ _ => 1
  | .choice branches _ _ => branches.length

/-- `Item::min`. -/
def min : Item → Nat
  | .attribute f | .element f => f.min
  | .characters _ => 1
  | .wildcard min _ | .choice _ min _ => min

/-- `Item::max`. -/
def max : Item → Nat
  | .attribute f | .element f => f.max
  | .characters _ => 1
  | .wildcard _ max | .choice _ _ max => max

/-- `Item::optional`. -/
def optional (i : Item) : Bool := i.min = 0

end Item

inductive LayoutError where
  | unsupported (what : String)
  | cyclicDerivation
  | widthMismatch (position expected actual : Nat)
  | missingProduction (position code : Nat)
  | productionMismatch (position code : Nat)
  deriving DecidableEq, Repr

/-- `Layout`. -/
structure Layout where
  items : List Item
  prodBefore : List Nat
  width : List Nat
  repeatWidth : List (Option Nat)
  deriving DecidableEq, Repr

section Positions

variable (items : List Item)

/-- The event codes the items before `i` occupy. -/
def before (i : Nat) : Nat := ((items.take i).map Item.productions).sum

/-- The first required item from `i` on, or the end. -/
def firstRequired (i : Nat) : Nat := i + ((items.drop i).takeWhile Item.optional).length

/-- `end_ok[i]`. -/
def endOk (i : Nat) : Bool := firstRequired items i = items.length

/-- `first_set_end[i]`. -/
def firstSetEnd (i : Nat) : Nat :=
  if firstRequired items i < items.length then firstRequired items i + 1 else items.length

/-- The untyped character data of a mixed type, which widens the codes of its content. -/
def mixedExtra (contentStart : Nat) (mixed : Bool) (i : Nat) : Nat :=
  (mixed && contentStart ≤ i).toNat

/-- The event-code width at position `i`; one more is counted for what is not declared. -/
def positionWidth (contentStart : Nat) (mixed : Bool) (i : Nat) : Nat :=
  bitWidth (before items (firstSetEnd items i) - before items i + (endOk items i).toNat
    + mixedExtra contentStart mixed i + 1)

/-- The width where item `j` is open for another occurrence: all of its codes, and what may follow
it. -/
def repeatedWidth (contentStart : Nat) (mixed : Bool) (j : Nat) (item : Item) : Nat :=
  bitWidth (item.productions
    + (before items (firstSetEnd items (j + 1)) - before items (j + 1))
    + (endOk items (j + 1)).toNat + mixedExtra contentStart mixed (j + 1) + 1)

end Positions

namespace Layout

/-- The numbers of a list of items. -/
def ofItems (items : List Item) (contentStart : Nat) (mixed : Bool) : Layout where
  items := items
  prodBefore := (List.range (items.length + 1)).map (before items)
  width := (List.range (items.length + 1)).map (positionWidth items contentStart mixed)
  repeatWidth := items.zipIdx.map fun (item, j) =>
    if item.max > 1 then some (repeatedWidth items contentStart mixed j item) else none

/-- `Layout::of`, from the items on. -/
def compute (items : List Item) (contentStart : Nat) (mixed : Bool) : Except LayoutError Layout :=
  if items.any fun item => item.min ≥ 2 ∧ item.productions > 1 then
    .error (.unsupported "a repeated choice with minOccurs >= 2 (see BELOW_MIN_WIDTH)")
  else .ok (ofItems items contentStart mixed)

/-- `shape_decl`: the numbers the generated code carries. -/
def shape (l : Layout) : Shape where
  prodBefore := l.prodBefore
  width := l.width
  repeatWidth := l.repeatWidth.map fun w => w.getD 0
  min := l.items.map Item.min
  max := l.items.map Item.max

end Layout

/-! ## The numbers of a layout

What `compute` leaves in the layout, position by position, so that nothing behind this point
unfolds it. -/

theorem before_succ {items : List Item} {j : Nat} {item : Item} (h : items[j]? = some item) :
    before items (j + 1) = before items j + item.productions := by
  unfold before
  rw [List.take_add_one, h, List.map_append, List.sum_append]
  simp

theorem before_mono {items : List Item} {i k : Nat} (h : i ≤ k) :
    before items i ≤ before items k := by
  induction k with
  | zero => rw [Nat.le_zero.mp h]
  | succ k ih =>
    by_cases heq : i = k + 1
    · rw [heq]
    · refine Nat.le_trans (ih (by omega)) ?_
      cases hk : items[k]? with
      | none =>
        have hlen := List.getElem?_eq_none_iff.mp hk
        unfold before
        rw [List.take_of_length_le hlen, List.take_of_length_le (by omega)]
      | some item =>
        rw [before_succ hk]
        exact Nat.le_add_right ..

section Shape

variable (items : List Item) (contentStart : Nat) (mixed : Bool)

/-- What the generated code carries for the items. -/
def shapeOf : Shape := (Layout.ofItems items contentStart mixed).shape

@[simp] theorem shapeOf_len : (shapeOf items contentStart mixed).len = items.length := by
  simp [shapeOf, Layout.shape, Layout.ofItems, Shape.len]

theorem shapeOf_before {i : Nat} (h : i ≤ items.length) :
    (shapeOf items contentStart mixed).before i = before items i := by
  have hlt : i < items.length + 1 := by omega
  simp [shapeOf, Layout.shape, Layout.ofItems, Shape.before, List.getD, hlt]

theorem shapeOf_total :
    (shapeOf items contentStart mixed).total = before items items.length := by
  have htotal : (shapeOf items contentStart mixed).total
      = (shapeOf items contentStart mixed).before items.length := by
    simp [shapeOf, Layout.shape, Layout.ofItems, Shape.total]
  rw [htotal, shapeOf_before items contentStart mixed (Nat.le_refl _)]

theorem shapeOf_widthAt {i : Nat} (h : i ≤ items.length) :
    (shapeOf items contentStart mixed).widthAt i = positionWidth items contentStart mixed i := by
  have hlt : i < items.length + 1 := by omega
  simp [shapeOf, Layout.shape, Layout.ofItems, Shape.widthAt, List.getD, hlt]

variable {items} {j : Nat} {item : Item} (h : items[j]? = some item)

include h

theorem shapeOf_minAt : (shapeOf items contentStart mixed).minAt j = item.min := by
  simp [shapeOf, Layout.shape, Layout.ofItems, Shape.minAt, List.getD, h]

theorem shapeOf_maxAt : (shapeOf items contentStart mixed).maxAt j = item.max := by
  simp [shapeOf, Layout.shape, Layout.ofItems, Shape.maxAt, List.getD, h]

theorem shapeOf_repeatWidthAt (hmax : 1 < item.max) :
    (shapeOf items contentStart mixed).repeatWidthAt j
      = repeatedWidth items contentStart mixed j item := by
  simp [shapeOf, Layout.shape, Layout.ofItems, Shape.repeatWidthAt, List.getD, List.getElem?_zipIdx,
    h, hmax]

theorem shapeOf_branches : (shapeOf items contentStart mixed).branches j = item.productions := by
  have hlt := (List.getElem?_eq_some_iff.mp h).1
  unfold Shape.branches
  rw [shapeOf_before items contentStart mixed hlt,
    shapeOf_before items contentStart mixed (Nat.le_of_lt hlt), before_succ h]
  omega

end Shape

theorem shapeOf_sorted (items : List Item) (contentStart : Nat) (mixed : Bool) :
    (shapeOf items contentStart mixed).Sorted := by
  constructor
  · intro i k hik hk
    rw [shapeOf_len] at hk
    rw [shapeOf_before items contentStart mixed hk,
      shapeOf_before items contentStart mixed (Nat.le_trans hik hk)]
    exact before_mono hik
  · rw [shapeOf_len, shapeOf_total, shapeOf_before items contentStart mixed (Nat.le_refl _)]

/-- What a layout carries is what was computed from its items. -/
theorem shape_of_compute {items : List Item} {contentStart : Nat} {mixed : Bool} {l : Layout}
    (h : Layout.compute items contentStart mixed = .ok l) :
    l.items = items ∧ l.shape = shapeOf items contentStart mixed
      ∧ ∀ item ∈ items, 2 ≤ item.min → item.productions ≤ 1 := by
  unfold Layout.compute at h
  split at h
  · cases h
  · next hnarrow =>
    cases h
    refine ⟨rfl, rfl, fun item hitem hmin => ?_⟩
    by_contra hwide
    exact hnarrow (List.any_eq_true.mpr ⟨item, hitem, decide_eq_true ⟨hmin, by omega⟩⟩)

/-! ## First sets

What may come next from a position on: everything up to the first item that is required. -/

theorem firstRequired_of_nil (items : List Item) {i : Nat} (h : items[i]? = none) :
    firstRequired items i = i := by
  unfold firstRequired
  rw [List.drop_eq_nil_of_le (List.getElem?_eq_none_iff.mp h)]
  rfl

theorem firstRequired_of_required {items : List Item} {i : Nat} {item : Item}
    (h : items[i]? = some item) (hrequired : item.min ≠ 0) : firstRequired items i = i := by
  obtain ⟨hlt, hget⟩ := List.getElem?_eq_some_iff.mp h
  unfold firstRequired
  rw [List.drop_eq_getElem_cons hlt, hget, List.takeWhile_cons_of_neg (by simp [Item.optional,
    hrequired])]
  rfl

theorem firstRequired_of_optional {items : List Item} {i : Nat} {item : Item}
    (h : items[i]? = some item) (hoptional : item.min = 0) :
    firstRequired items i = firstRequired items (i + 1) := by
  obtain ⟨hlt, hget⟩ := List.getElem?_eq_some_iff.mp h
  unfold firstRequired
  rw [List.drop_eq_getElem_cons hlt, hget, List.takeWhile_cons_of_pos (by simp [Item.optional,
    hoptional]), List.length_cons]
  omega

/-- Optional items up to `j` do not move the first required one. -/
theorem firstRequired_eq {items : List Item} {i j : Nat} (hij : i ≤ j)
    (hoptional : ∀ k item, i ≤ k → k < j → items[k]? = some item → item.min = 0)
    (hj : j ≤ items.length) : firstRequired items i = firstRequired items j := by
  induction j with
  | zero => rw [Nat.le_zero.mp hij]
  | succ j ih =>
    by_cases heq : i = j + 1
    · rw [heq]
    · obtain ⟨item, hitem⟩ : ∃ item, items[j]? = some item :=
        ⟨items[j], List.getElem?_eq_getElem (by omega)⟩
      rw [ih (by omega) (fun k item hk hkj => hoptional k item hk (by omega)) (by omega),
        firstRequired_of_optional hitem (hoptional j item (by omega) (by omega) hitem)]

theorem le_firstRequired (items : List Item) (i : Nat) : i ≤ firstRequired items i :=
  Nat.le_add_right ..

/-! ## Where a coder may stand

Behind an item that is over the codes start at the next one, and behind an open one they are
shifted by its own. In each case the width has room for every code that may come. -/

section Stands

variable (items : List Item) (contentStart : Nat) (mixed : Bool)

/-- The positions, the shifts and the widths of a coder that may go on to another item: behind an
item that is over, and behind one that is open for more. -/
inductive Stands : Nat → Nat → Nat → Prop where
  | past {i : Nat} (h : i ≤ items.length) : Stands i 0 (positionWidth items contentStart mixed i)
  | open {j : Nat} {item : Item} (h : items[j]? = some item) (hproductions : 0 < item.productions) :
      Stands (j + 1) 1 (repeatedWidth items contentStart mixed j item)

variable {items contentStart mixed} {pos base width : Nat}

theorem Stands.pos_le (h : Stands items contentStart mixed pos base width) :
    pos ≤ items.length := by
  cases h with
  | past h => exact h
  | «open» h _ => exact (List.getElem?_eq_some_iff.mp h).1

/-- Every code up to the first required item's, and then that of the end, can be read. -/
theorem Stands.lt_width (h : Stands items contentStart mixed pos base width) {code : Nat}
    (hcode : code ≤ before items (firstSetEnd items pos) - before items pos
      + (endOk items pos).toNat) : base + code < 2 ^ width := by
  cases h with
  | past h =>
    refine lt_two_pow_bitWidth ?_
    omega
  | «open» h hproductions =>
    refine lt_two_pow_bitWidth ?_
    omega

/-- The code of a branch of an item that none but optional ones are before. -/
theorem Stands.branch_lt (h : Stands items contentStart mixed pos base width) {j b : Nat}
    {item : Item} (hpos : pos ≤ j) (hj : items[j]? = some item)
    (hoptional : ∀ k item, pos ≤ k → k < j → items[k]? = some item → item.min = 0)
    (hb : b < item.productions) :
    base + before items j - before items pos + b < 2 ^ width := by
  have hlt := (List.getElem?_eq_some_iff.mp hj).1
  have hle : before items pos ≤ before items j := before_mono hpos
  have hin : j < firstSetEnd items pos := by
    have hrequired := le_firstRequired items j
    rw [← firstRequired_eq hpos hoptional (by omega)] at hrequired
    unfold firstSetEnd
    split
    · omega
    · exact hlt
  have hend : before items (j + 1) ≤ before items (firstSetEnd items pos) := before_mono hin
  rw [before_succ hj] at hend
  have hcode : base + (before items j - before items pos + b) < 2 ^ width :=
    h.lt_width (by omega)
  omega

/-- The code of the end, where nothing is required any more. -/
theorem Stands.end_lt (h : Stands items contentStart mixed pos base width)
    (hoptional : ∀ k item, pos ≤ k → items[k]? = some item → item.min = 0) :
    base + before items items.length - before items pos < 2 ^ width := by
  have hrequired : firstRequired items pos = items.length := by
    rw [firstRequired_eq h.pos_le (fun k item hk _ => hoptional k item hk) (Nat.le_refl _),
      firstRequired_of_nil items (List.getElem?_eq_none (Nat.le_refl _))]
  have hset : firstSetEnd items pos = items.length := by
    unfold firstSetEnd
    rw [if_neg (by omega)]
  have hcode : base + (before items items.length - before items pos) < 2 ^ width := by
    refine h.lt_width ?_
    rw [hset]
    exact Nat.le_add_right ..
  have hle : before items pos ≤ before items items.length := before_mono h.pos_le
  omega

/-- Behind as many occurrences of an item as it needs. -/
theorem stands_after {j count : Nat} {item : Item} (h : items[j]? = some item)
    (hproductions : 0 < item.productions) (hcount : 0 < count) (hmin : item.min ≤ count) :
    Stands items contentStart mixed (j + 1)
      ((shapeOf items contentStart mixed).baseAfter j count)
      ((shapeOf items contentStart mixed).widthAfter j count) := by
  have hlt := (List.getElem?_eq_some_iff.mp h).1
  unfold Shape.baseAfter Shape.widthAfter
  rw [shapeOf_maxAt contentStart mixed h, shapeOf_minAt contentStart mixed h]
  by_cases hmore : count < item.max
  · rw [if_pos hmore, if_pos hmore, if_neg (by omega),
      shapeOf_repeatWidthAt contentStart mixed h (by omega)]
    exact .open h hproductions
  · rw [if_neg hmore, if_neg hmore, shapeOf_widthAt items contentStart mixed hlt]
    exact .past hlt

end Stands

end Iso15118.Codegen
