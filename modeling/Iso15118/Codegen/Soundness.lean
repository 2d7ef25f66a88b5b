import Iso15118.Codegen.Layout

/-!
# What the reader of a content model lets through

`Sound` is what a content model asks of the occurrences of its items. The reader keeps their order,
their branches and the upper bounds of all items that may occur at all, and it leaves no item short
that it has begun. What it does not do is check that nothing required is ahead when a code is that
of the end: **`reader_sound_iff`** says for which layouts the widths see to that.

Both directions are about runs of the reader that begin at the first item. One way, a run is
followed with what it has counted (`Counted`) and with the fact that the items before its position
have what they need (`Settled`); such a run ends soundly unless something required is still ahead,
and then `Guarded` has left the code of the end no room. The other way, any room there is is used:
the run that takes of every item what it needs, and then that code, is a run of the reader and ends
too early.
-/

namespace Iso15118.Codegen

open Iso15118.Lib Iso15118.Exi

/-- What the content model `items` permits: the items in order, each as often as it may occur, in
branches it has. -/
structure Sound (items : List Item) (os : List Occurrence) : Prop where
  sorted : (os.map Occurrence.index).Pairwise (· ≤ ·)
  branches : ∀ o ∈ os, ∃ item, items[o.index]? = some item ∧ o.branch < item.productions
  bounds : ∀ j item, items[j]? = some item →
    item.min ≤ os.countP (·.index = j) ∧ os.countP (·.index = j) ≤ item.max

/-- An item that can be got past: it has a code, and as many occurrences as it needs are let
through. -/
def Item.Passable (item : Item) : Prop := 0 < item.productions ∧ item.min ≤ Nat.max item.max 1

/-- Nothing before item `j` is in the way of it. -/
def Clear (items : List Item) (j : Nat) : Prop :=
  ∀ k item, k < j → items[k]? = some item → item.min ≠ 0 → item.Passable

/-- The widths leave no room for the code of the end wherever something required is ahead, and no
item is forbidden. -/
structure Guarded (items : List Item) (contentStart : Nat) (mixed : Bool) : Prop where
  /-- before the first item -/
  start : endOk items 0 = true
    ∨ 2 ^ positionWidth items contentStart mixed 0 ≤ before items items.length
  /-- behind as many occurrences of an item as are let through -/
  past : ∀ (j : Nat) (item : Item), items[j]? = some item → Clear items j → item.Passable →
    endOk items (j + 1) = true
      ∨ 2 ^ positionWidth items contentStart mixed (j + 1)
        ≤ before items items.length - before items (j + 1)
  /-- behind an item that is open for more, whose own codes come first -/
  again : ∀ (j : Nat) (item : Item), items[j]? = some item → Clear items j → 0 < item.productions →
    Nat.max item.min 1 < item.max →
    endOk items (j + 1) = true
      ∨ 2 ^ repeatedWidth items contentStart mixed j item
        ≤ 1 + before items items.length - before items (j + 1)
      ∨ 1 + before items items.length - before items (j + 1) < item.productions
  /-- an item that must not occur has no code, or nothing that has it comes to an end -/
  never : ∀ (j : Nat) (item : Item), items[j]? = some item → item.max = 0 → 0 < item.productions →
    ∃ (k : Nat) (required : Item), items[k]? = some required ∧ required.min ≠ 0
      ∧ ¬ required.Passable

/-- `end_ok[i]` says that nothing from `i` on is required. -/
theorem endOk_iff {items : List Item} {i : Nat} (h : i ≤ items.length) :
    endOk items i = true ↔ ∀ k item, i ≤ k → items[k]? = some item → item.min = 0 := by
  unfold endOk
  rw [decide_eq_true_eq]
  induction hn : items.length - i generalizing i with
  | zero =>
    have hnone : items[i]? = none := List.getElem?_eq_none (by omega)
    rw [firstRequired_of_nil items hnone]
    refine ⟨fun _ k item hk hitem => ?_, fun _ => by omega⟩
    have hlt := (List.getElem?_eq_some_iff.mp hitem).1
    omega
  | succ n ih =>
    have hi : items[i]? = some items[i] := List.getElem?_eq_getElem (by omega)
    -- an optional item does not stand in the way
    by_cases hoptional : items[i].min = 0
    · rw [firstRequired_of_optional hi hoptional, ih (by omega) (by omega)]
      constructor
      · intro hrest k item hk hitem
        by_cases heq : k = i
        · subst heq
          rw [hi] at hitem
          cases hitem
          exact hoptional
        · exact hrest k item (by omega) hitem
      · intro hall k item hk hitem
        exact hall k item (by omega) hitem
    -- a required one does
    · rw [firstRequired_of_required hi hoptional]
      constructor
      · intro hend
        omega
      · intro hall
        exact absurd (hall i _ (Nat.le_refl i) hi) hoptional

/-! ## What is let through

`Reached` is a run of the reader, from its first step. Its invariant is about counts: what is
behind the position has as many as it needs, and what is open has no more than it may. -/

section Reader

variable (items : List Item) (contentStart : Nat) (mixed : Bool)

/-- Occurrences of items before `p` only, in order and in their branches, where what is settled has
as many as it needs and no more than are let through. -/
structure Counted (p : Nat) (os : List Occurrence) : Prop where
  sorted : (os.map Occurrence.index).Pairwise (· ≤ ·)
  inside : ∀ o ∈ os, o.index < p
  branches : ∀ o ∈ os, ∃ item, items[o.index]? = some item ∧ o.branch < item.productions
  most : ∀ j item, items[j]? = some item → os.countP (·.index = j) ≤ Nat.max item.max 1

/-- The items before `p` have what they need. -/
def Settled (p : Nat) (os : List Occurrence) : Prop :=
  ∀ j item, j < p → items[j]? = some item → item.min ≤ os.countP (·.index = j)

/-- Where a reader is that has let occurrences through. -/
inductive Reached : List Occurrence → SeqReader → Prop where
  | new : Reached [] (.new (shapeOf items contentStart mixed))
  | behind {os : List Occurrence} {j c : Nat} {item : Item} (hj : items[j]? = some item)
      (hproductions : 0 < item.productions) (hcounted : Counted items (j + 1) os)
      (hsettled : Settled items j os) (hpos : 0 < c) (hcount : os.countP (·.index = j) = c) :
      Reached os (.behind (shapeOf items contentStart mixed) j c)

variable {items contentStart mixed}

/-- The counts of the items that were not the last to occur. -/
theorem countP_concat (os : List Occurrence) (o : Occurrence) (j : Nat) :
    (os ++ [o]).countP (·.index = j) = os.countP (·.index = j) + if o.index = j then 1 else 0 := by
  rw [List.countP_append, List.countP_singleton]
  simp

theorem sorted_concat {os : List Occurrence} {o : Occurrence}
    (h : (os.map Occurrence.index).Pairwise (· ≤ ·)) (hle : ∀ o' ∈ os, o'.index ≤ o.index) :
    ((os ++ [o]).map Occurrence.index).Pairwise (· ≤ ·) := by
  rw [List.map_append, List.pairwise_append]
  refine ⟨h, List.pairwise_singleton .., fun i hi k hk => ?_⟩
  obtain ⟨o', ho', rfl⟩ := List.mem_map.mp hi
  rw [List.map_singleton, List.mem_singleton] at hk
  rw [hk]
  exact hle o' ho'

theorem countP_of_inside {os : List Occurrence} {p j : Nat} (h : ∀ o ∈ os, o.index < p)
    (hj : p ≤ j) : os.countP (·.index = j) = 0 := by
  rw [List.countP_eq_zero]
  intro o ho heq
  have hlt := h o ho
  have heq := of_decide_eq_true heq
  omega

/-- Another occurrence of the item that was the last to occur. -/
theorem Reached.again {os : List Occurrence} {j c b : Nat} {item : Item}
    (hj : items[j]? = some item) (hproductions : 0 < item.productions)
    (hcounted : Counted items (j + 1) os) (hsettled : Settled items j os)
    (hcount : os.countP (·.index = j) = c) (hmax : c < item.max) (hb : b < item.productions) :
    Reached items contentStart mixed (os ++ [⟨j, b, false⟩])
      (.behind (shapeOf items contentStart mixed) j (c + 1)) := by
  refine .behind hj hproductions ⟨?_, ?_, ?_, ?_⟩ ?_ (Nat.succ_pos c) ?_
  · exact sorted_concat hcounted.sorted fun o ho => Nat.le_of_lt_succ (hcounted.inside o ho)
  · intro o ho
    rcases List.mem_append.mp ho with ho | ho
    · exact hcounted.inside o ho
    · rw [List.mem_singleton.mp ho]
      exact Nat.lt_succ_self j
  · intro o ho
    rcases List.mem_append.mp ho with ho | ho
    · exact hcounted.branches o ho
    · rw [List.mem_singleton.mp ho]
      exact ⟨item, hj, hb⟩
  -- the count of item `j` goes up by one, and the others stay
  · intro k item' hk
    rw [countP_concat]
    dsimp only
    split
    · next heq =>
      subst heq
      rw [hj] at hk
      cases hk
      rw [hcount]
      exact Nat.le_trans hmax (Nat.le_max_left ..)
    · exact hcounted.most k item' hk
  · intro k item' hk hitem
    rw [countP_concat]
    exact Nat.le_trans (hsettled k item' hk hitem) (Nat.le_add_right ..)
  · rw [countP_concat, hcount, if_pos rfl]

/-- The first occurrence of an item, behind those that are settled and some that are skipped. -/
theorem Reached.first {os : List Occurrence} {p j b : Nat} {item : Item}
    (hcounted : Counted items p os) (hsettled : Settled items p os) (hp : p ≤ j)
    (hj : items[j]? = some item)
    (hoptional : ∀ k item, p ≤ k → k < j → items[k]? = some item → item.min = 0)
    (hb : b < item.productions) :
    Reached items contentStart mixed (os ++ [⟨j, b, true⟩])
      (.behind (shapeOf items contentStart mixed) j 1) := by
  -- nothing from the position of the reader on has occurred
  have hnone : ∀ k, p ≤ k → os.countP (·.index = k) = 0 := fun k hk =>
    countP_of_inside hcounted.inside hk
  refine .behind hj (Nat.zero_lt_of_lt hb) ⟨?_, ?_, ?_, ?_⟩ ?_ Nat.one_pos ?_
  · refine sorted_concat hcounted.sorted fun o ho => ?_
    have hlt := hcounted.inside o ho
    show o.index ≤ j
    omega
  · intro o ho
    rcases List.mem_append.mp ho with ho | ho
    · have hlt := hcounted.inside o ho
      omega
    · rw [List.mem_singleton.mp ho]
      exact Nat.lt_succ_self j
  · intro o ho
    rcases List.mem_append.mp ho with ho | ho
    · exact hcounted.branches o ho
    · rw [List.mem_singleton.mp ho]
      exact ⟨item, hj, hb⟩
  · intro k item' hk
    rw [countP_concat]
    dsimp only
    split
    · next heq =>
      subst heq
      rw [hnone j hp]
      exact Nat.le_max_right ..
    · exact hcounted.most k item' hk
  -- what is passed over on the way is optional
  · intro k item' hk hitem
    rw [countP_concat]
    by_cases hkp : k < p
    · exact Nat.le_trans (hsettled k item' hkp hitem) (Nat.le_add_right ..)
    · rw [hoptional k item' (by omega) hk hitem]
      exact Nat.zero_le _
  · rw [countP_concat, hnone j hp, if_pos rfl]

theorem counted_nil : Counted items 0 [] where
  sorted := List.Pairwise.nil
  inside o ho := by cases ho
  branches o ho := by cases ho
  most _ _ _ := Nat.zero_le _

/-- A reader that asks for no more of the item it stands behind has settled all it is past. -/
theorem Reached.settled {os : List Occurrence} {r : SeqReader}
    (h : Reached items contentStart mixed os r) (henough : r.belowMin = false) :
    r.shape = shapeOf items contentStart mixed ∧ r.pos ≤ items.length
      ∧ Counted items r.pos os ∧ Settled items r.pos os := by
  cases h with
  | new => exact ⟨rfl, Nat.zero_le _, counted_nil, fun j item hj => absurd hj (Nat.not_lt_zero j)⟩
  | behind hj hproductions hcounted hsettled hpos hcount =>
    refine ⟨rfl, (List.getElem?_eq_some_iff.mp hj).1, hcounted, fun k item' hk hitem => ?_⟩
    have hk : k < _ + 1 := hk
    have henough := of_decide_eq_false henough
    rw [shapeOf_minAt contentStart mixed hj] at henough
    rcases Nat.lt_succ_iff_lt_or_eq.mp hk with hlt | heq
    · exact hsettled k item' hlt hitem
    · subst heq
      rw [hj] at hitem
      cases hitem
      omega

/-- A reader stands behind what has occurred. -/
theorem Reached.occurs {os : List Occurrence} {r : SeqReader} {j c : Nat}
    (h : Reached items contentStart mixed os r)
    (hr : r = .behind (shapeOf items contentStart mixed) j c) : 0 < os.countP (·.index = j) := by
  cases h with
  | new => exact absurd (congrArg SeqReader.pos hr) (by simp [SeqReader.new, SeqReader.behind])
  | behind hj _ _ _ hpos hcount =>
    have heq := congrArg SeqReader.repeating hr
    dsimp only [SeqReader.behind] at heq
    subst heq
    rw [hcount]
    exact hpos

/-- A step of the reader is one more occurrence, in the order of the items. -/
theorem Reached.step {os : List Occurrence} {r r' : SeqReader} {code : Nat} {o : Occurrence}
    (h : Reached items contentStart mixed os r) (hstep : r.step code = .ok (.item o, r')) :
    Reached items contentStart mixed (os ++ [o]) r' := by
  rcases SeqReader.step_cases hstep with ⟨hopen, hcode, heq, rfl⟩ | ⟨-, -, -, -, heq, -⟩
    | ⟨j, b, henough, -, hpos, hj, hoptional, -, hb, heq, rfl⟩
  · cases heq
    cases h with
    | new => exact absurd rfl hopen
    | @behind _ j c item hj hproductions hcounted hsettled hpos hcount =>
      have hmax : c < (shapeOf items contentStart mixed).maxAt j := by
        by_contra hover
        exact hopen (if_neg hover)
      have hcode : code < (shapeOf items contentStart mixed).branches j := hcode
      rw [shapeOf_maxAt contentStart mixed hj] at hmax
      rw [shapeOf_branches contentStart mixed hj] at hcode
      exact Reached.again hj hproductions hcounted hsettled hcount hmax hcode
  · cases heq
  · cases heq
    obtain ⟨hshape, -, hcounted, hsettled⟩ := h.settled henough
    rw [hshape] at hj hoptional hb ⊢
    rw [shapeOf_len] at hj
    have hitem : items[j]? = some items[j] := List.getElem?_eq_getElem hj
    rw [shapeOf_branches contentStart mixed hitem] at hb
    refine Reached.first hcounted hsettled hpos hitem (fun k item hk hkj hk' => ?_) hb
    rw [← shapeOf_minAt contentStart mixed hk']
    exact hoptional k hk hkj

theorem Reached.takes {os os' : List Occurrence} {r r' : SeqReader} {codes : List (Nat × Nat)}
    (h : Reached items contentStart mixed os r) (htakes : Takes r codes os' r') :
    Reached items contentStart mixed (os ++ os') r' := by
  induction htakes generalizing os with
  | nil =>
    rw [List.append_nil]
    exact h
  | cons _ hstep _ ih =>
    have hrest := ih (h.step hstep)
    rw [List.append_assoc] at hrest
    exact hrest

/-- What has occurred as often as it needs can be got past. -/
theorem Counted.passable {p : Nat} {os : List Occurrence} (h : Counted items p os) {k : Nat}
    {item : Item} (hk : items[k]? = some item) (hrequired : item.min ≠ 0)
    (hmin : item.min ≤ os.countP (·.index = k)) : item.Passable := by
  refine ⟨?_, Nat.le_trans hmin (h.most k item hk)⟩
  obtain ⟨o, ho, hindex⟩ := List.countP_pos_iff.mp (show 0 < os.countP (·.index = k) by omega)
  obtain ⟨item', hitem', hb⟩ := h.branches o ho
  rw [of_decide_eq_true hindex, hk] at hitem'
  cases hitem'
  exact Nat.zero_lt_of_lt hb

/-- Where the widths leave no room for it, the end is not let through while something required is
ahead. -/
theorem endOk_of_ended {os : List Occurrence} {r r' : SeqReader} {code : Nat}
    (hguarded : Guarded items contentStart mixed) (h : Reached items contentStart mixed os r)
    (hlt : code < 2 ^ r.width) (hstep : r.step code = .ok (.ended, r')) :
    r.belowMin = false ∧ endOk items r.pos = true := by
  rcases SeqReader.step_cases hstep with ⟨-, -, heq, -⟩ | ⟨henough, hbase, hshadow, htotal, -, -⟩
    | ⟨j, b, -, -, -, -, -, -, -, heq, -⟩
  · cases heq
  · refine ⟨henough, ?_⟩
    obtain ⟨hshape, hpos, -, -⟩ := h.settled henough
    rw [hshape, shapeOf_total, shapeOf_before items contentStart mixed hpos] at htotal
    have hbefore : before items r.pos ≤ before items items.length := before_mono hpos
    cases h with
    -- at the start the end has to fit the width of all that may come first
    | new =>
      have hwidth := shapeOf_widthAt items contentStart mixed (Nat.zero_le items.length)
      have hlt : code < 2 ^ (shapeOf items contentStart mixed).widthAt 0 := hlt
      have htotal : code - 0 + before items 0 = before items items.length := htotal
      rw [hwidth] at hlt
      have hzero : before items 0 = 0 := rfl
      refine hguarded.start.resolve_right ?_
      omega
    | @behind _ j c item hj hproductions hcounted hsettled hcpos hcount =>
      have hin := (List.getElem?_eq_some_iff.mp hj).1
      have hmin := of_decide_eq_false henough
      rw [shapeOf_minAt contentStart mixed hj] at hmin
      have hclear : Clear items j := fun k item' hk hitem' hrequired =>
        hcounted.passable hitem' hrequired (hsettled k item' hk hitem')
      have hlt : code < 2 ^ (shapeOf items contentStart mixed).widthAfter j c := hlt
      have hbase : (shapeOf items contentStart mixed).baseAfter j c ≤ code := hbase
      have htotal : code - (shapeOf items contentStart mixed).baseAfter j c
        + before items (j + 1) = before items items.length := htotal
      have hshadow : (shapeOf items contentStart mixed).baseAfter j c ≠ 0 →
        (shapeOf items contentStart mixed).branches j ≤ code := hshadow
      unfold Shape.baseAfter at hbase htotal hshadow
      unfold Shape.widthAfter at hlt
      rw [shapeOf_maxAt contentStart mixed hj] at hlt hbase htotal hshadow
      -- after an occurrence the offer of another takes the first code, while there is room for one
      by_cases hopen : c < item.max
      · rw [if_pos hopen] at hlt hbase htotal hshadow
        rw [shapeOf_minAt contentStart mixed hj, if_neg hmin,
          shapeOf_repeatWidthAt contentStart mixed hj (by omega)] at hlt
        have hbranches := hshadow Nat.one_ne_zero
        rw [shapeOf_branches contentStart mixed hj] at hbranches
        have hmore : Nat.max item.min 1 < item.max :=
          Nat.max_lt.mpr ⟨by omega, by omega⟩
        refine (hguarded.again j item hj hclear hproductions hmore).resolve_right ?_
        rintro (hwide | hfew)
        · omega
        · omega
      · rw [if_neg hopen] at hlt hbase htotal
        rw [shapeOf_widthAt items contentStart mixed (i := j + 1) hin] at hlt
        have hmost := hcounted.most j item hj
        rw [hcount] at hmost
        refine (hguarded.past j item hj hclear ⟨hproductions, by omega⟩).resolve_right ?_
        omega
  · cases heq

/-- With a guarded layout every list that is read is sound. -/
theorem sound_of_guarded (hguarded : Guarded items contentStart mixed) {d d' : Decoder}
    {os : List Occurrence} (h : ReadsAll (.new (shapeOf items contentStart mixed)) d os d') :
    Sound items os := by
  obtain ⟨codes, r, r', code, htakes, hlt, hstep⟩ := takes_of_readsAll h
  have hreached : Reached items contentStart mixed os r := Reached.new.takes htakes
  obtain ⟨henough, hend⟩ := endOk_of_ended hguarded hreached hlt hstep
  obtain ⟨-, hpos, hcounted, hsettled⟩ := hreached.settled henough
  have hoptional := (endOk_iff hpos).mp hend
  have hmin : ∀ j item, items[j]? = some item → item.min ≤ os.countP (·.index = j) := by
    intro j item hj
    by_cases hpast : j < r.pos
    · exact hsettled j item hpast hj
    · rw [hoptional j item (by omega) hj]
      exact Nat.zero_le _
  refine ⟨hcounted.sorted, hcounted.branches, fun j item hj => ⟨hmin j item hj, ?_⟩⟩
  have hmost := hcounted.most j item hj
  by_cases hforbidden : item.max = 0
  · -- what occurs although it must not would be followed by something that cannot be got past
    by_contra hsome
    obtain ⟨o, ho, hindex⟩ := List.countP_pos_iff.mp (show 0 < os.countP (·.index = j) by omega)
    obtain ⟨item', hitem', hb⟩ := hcounted.branches o ho
    rw [of_decide_eq_true hindex, hj] at hitem'
    cases hitem'
    obtain ⟨k, required, hk, hrequired, hstuck⟩ :=
      hguarded.never j item hj hforbidden (Nat.zero_lt_of_lt hb)
    exact hstuck (hcounted.passable hk hrequired (hmin k required hk))
  · have hone : Nat.max item.max 1 = item.max := Nat.max_eq_left (by omega)
    omega

/-! ## What is let through although it should not be

The converse. Where the widths leave room for the code of the end, a run is made up that takes
every required item before it and then that code; so a reader that lets no such run through has
no such room. -/

/-- A reader with nothing open, and with none but optional items between it and `p`. -/
structure Quiet (items : List Item) (contentStart : Nat) (mixed : Bool) (r : SeqReader) (p : Nat) :
    Prop where
  read : r.shape = shapeOf items contentStart mixed
  enough : r.belowMin = false
  base : r.base = 0
  pos : r.pos ≤ p
  stands : Stands items contentStart mixed r.pos 0 r.width
  skipped : ∀ k item, r.pos ≤ k → k < p → items[k]? = some item → item.min = 0

theorem quiet_new (items : List Item) (contentStart : Nat) (mixed : Bool) :
    Quiet items contentStart mixed (.new (shapeOf items contentStart mixed)) 0 where
  read := rfl
  enough := rfl
  base := rfl
  pos := Nat.le_refl 0
  stands := by
    have hwidth := shapeOf_widthAt items contentStart mixed (Nat.zero_le items.length)
    show Stands items contentStart mixed 0 0 ((shapeOf items contentStart mixed).widthAt 0)
    rw [hwidth]
    exact .past (Nat.zero_le _)
  skipped k item _ hk := absurd hk (Nat.not_lt_zero k)

/-- As many occurrences of an item as are let through. -/
theorem Quiet.takes {r : SeqReader} {j c : Nat} {item : Item}
    (h : Quiet items contentStart mixed r j) (hj : items[j]? = some item)
    (hproductions : 0 < item.productions) (hpos : 0 < c) (hmax : c ≤ Nat.max item.max 1) :
    ∃ codes os, Takes r codes os (.behind (shapeOf items contentStart mixed) j c) := by
  have hlt := (List.getElem?_eq_some_iff.mp hj).1
  induction c with
  | zero => exact absurd hpos (Nat.lt_irrefl 0)
  | succ c ih =>
    -- the first occurrence opens the item
    by_cases hfirst : c = 0
    · subst hfirst
      have hcode := h.stands.branch_lt h.pos hj h.skipped hproductions
      have hstep := SeqReader.step_first (r := r) (j := j) (b := 0)
        (by rw [h.read]; exact shapeOf_sorted items contentStart mixed) h.enough h.pos
        (by rw [h.read, shapeOf_len]; exact hlt)
        (fun k hk hkj => by
          have hget : items[k]? = some items[k] := List.getElem?_eq_getElem (by omega)
          rw [h.read, shapeOf_minAt contentStart mixed hget]
          exact h.skipped k _ hk hkj hget)
        (by rw [h.read, shapeOf_branches contentStart mixed hj]; exact hproductions)
        (fun hopen => absurd h.base hopen)
      rw [h.base, h.read, shapeOf_before items contentStart mixed (by omega),
        shapeOf_before items contentStart mixed (Nat.le_trans h.pos (Nat.le_of_lt hlt))] at hstep
      exact ⟨_, _, Takes.single hcode hstep⟩
    -- every other one is a repeat, with a code of its own
    · obtain ⟨codes, os, htakes⟩ := ih (by omega) (by omega)
      have hmore : c < item.max := by
        rcases Nat.le_total item.max 1 with hone | hmany
        · have heq : Nat.max item.max 1 = 1 := Nat.max_eq_right hone
          omega
        · have heq : Nat.max item.max 1 = item.max := Nat.max_eq_left hmany
          omega
      have hstep := SeqReader.step_again (s := shapeOf items contentStart mixed) (j := j) (c := c)
        (b := 0) (by rw [shapeOf_maxAt contentStart mixed hj]; exact hmore)
        (by rw [shapeOf_branches contentStart mixed hj]; exact hproductions)
      exact ⟨_, _, htakes.append (Takes.single (Nat.two_pow_pos _) hstep)⟩

/-- Behind all occurrences of an item that can be got past nothing is open. -/
theorem quiet_behind (contentStart : Nat) (mixed : Bool) {j : Nat} {item : Item}
    (hj : items[j]? = some item)
    (hproductions : 0 < item.productions) (hmin : item.min ≤ Nat.max item.max 1) :
    Quiet items contentStart mixed
      (.behind (shapeOf items contentStart mixed) j (Nat.max item.max 1)) (j + 1) := by
  have hone : 1 ≤ Nat.max item.max 1 := Nat.le_max_right ..
  have hover : ¬ Nat.max item.max 1 < (shapeOf items contentStart mixed).maxAt j := by
    rw [shapeOf_maxAt contentStart mixed hj]
    exact Nat.not_lt.mpr (Nat.le_max_left ..)
  have hbase : (shapeOf items contentStart mixed).baseAfter j (Nat.max item.max 1) = 0 :=
    if_neg hover
  refine ⟨rfl, ?_, hbase, Nat.le_refl _, ?_, fun k item' hk hlt => ?_⟩
  · refine decide_eq_false ?_
    rw [shapeOf_minAt contentStart mixed hj]
    exact Nat.not_lt.mpr hmin
  · rw [← hbase]
    exact stands_after hj hproductions hone hmin
  · have hk : j + 1 ≤ k := hk
    omega

/-- Where everything required can be got past, the reader can be brought to any item with nothing
open. -/
theorem Quiet.path {r : SeqReader} {p q : Nat} (h : Quiet items contentStart mixed r p)
    (hpq : p ≤ q) (hq : q ≤ items.length)
    (hpassable : ∀ k item, p ≤ k → k < q → items[k]? = some item → item.min ≠ 0 → item.Passable) :
    ∃ codes os r', Takes r codes os r' ∧ Quiet items contentStart mixed r' q := by
  induction q with
  | zero =>
    rw [Nat.le_zero.mp hpq] at h
    exact ⟨[], [], r, .nil r, h⟩
  | succ q ih =>
    by_cases heq : p = q + 1
    · rw [heq] at h
      exact ⟨[], [], r, .nil r, h⟩
    · obtain ⟨codes, os, r', htakes, hquiet⟩ := ih (by omega) (by omega)
        fun k item hk hkq => hpassable k item hk (by omega)
      have hitem : items[q]? = some items[q] := List.getElem?_eq_getElem (by omega)
      -- an optional item is skipped
      by_cases hoptional : items[q].min = 0
      · refine ⟨codes, os, r', htakes, hquiet.read, hquiet.enough, hquiet.base, ?_, hquiet.stands,
          fun k item hk hkq hk' => ?_⟩
        · have hpos := hquiet.pos
          omega
        · by_cases hlast : k = q
          · subst hlast
            rw [hitem] at hk'
            cases hk'
            exact hoptional
          · exact hquiet.skipped k item hk (by omega) hk'
      -- any other occurs as often as it is let through
      · obtain ⟨hproductions, hmin⟩ := hpassable q _ (by omega) (by omega) hitem hoptional
        obtain ⟨codes', os', htakes'⟩ := hquiet.takes hitem hproductions
          (Nat.lt_of_lt_of_le Nat.one_pos (Nat.le_max_right ..)) (Nat.le_refl _)
        exact ⟨_, _, _, htakes.append htakes',
          quiet_behind contentStart mixed hitem hproductions hmin⟩

/-- A run that ends although something required is ahead. -/
theorem not_sound_of_ended {codes : List (Nat × Nat)} {os : List Occurrence} {r : SeqReader}
    (htakes : Takes (.new (shapeOf items contentStart mixed)) codes os r)
    (henough : r.belowMin = false) (hend : endOk items r.pos = false)
    (hlt : r.base + before items items.length - before items r.pos < 2 ^ r.width)
    (hshadow : r.base ≠ 0 →
      r.repeatingBranches ≤ r.base + before items items.length - before items r.pos) :
    ∃ d os d', ReadsAll (.new (shapeOf items contentStart mixed)) d os d' ∧ ¬ Sound items os := by
  have hreached : Reached items contentStart mixed os r := Reached.new.takes htakes
  obtain ⟨hshape, hpos, hcounted, -⟩ := hreached.settled henough
  have hvalue : r.base + r.shape.total - r.shape.before r.pos
      = r.base + before items items.length - before items r.pos := by
    rw [hshape, shapeOf_total, shapeOf_before items contentStart mixed hpos]
  have hstep := SeqReader.step_ended henough
    (by rw [hshape, shapeOf_total, shapeOf_before items contentStart mixed hpos]
        exact before_mono hpos)
    (fun hopen => by rw [hvalue]; exact hshadow hopen)
  rw [hvalue] at hstep
  obtain ⟨d, more, hrest⟩ := exists_rest (codeBits (codes ++ [(_, r.width)]))
  obtain ⟨d', hreads, -⟩ := reads_takes htakes hlt hstep hrest
  refine ⟨d, os, d', hreads, fun hsound => ?_⟩
  refine absurd ((endOk_iff hpos).mpr fun k item hk hitem => ?_) (by rw [hend]; decide)
  have hmin := (hsound.bounds k item hitem).1
  rw [countP_of_inside hcounted.inside hk] at hmin
  exact Nat.le_zero.mp hmin

/-- A reader that lets through nothing but what the content model permits has no room for the code
of the end wherever something is still required. Each part is shown by reading that code where there
is room for it. -/
theorem guarded_of_sound
    (h : ∀ d os d', ReadsAll (.new (shapeOf items contentStart mixed)) d os d' → Sound items os) :
    Guarded items contentStart mixed := by
  have hread : ¬ ∃ d os d', ReadsAll (.new (shapeOf items contentStart mixed)) d os d'
      ∧ ¬ Sound items os := fun ⟨d, os, d', hreads, hunsound⟩ => hunsound (h d os d' hreads)
  refine ⟨?_, ?_, ?_, ?_⟩
  -- in front of the first item: the code of the end alone is a document
  · by_contra hopen
    rw [not_or, Bool.not_eq_true, Nat.not_le] at hopen
    refine hread (not_sound_of_ended (.nil _) rfl hopen.1 ?_ fun hbase => absurd rfl hbase)
    show 0 + before items items.length - before items 0
      < 2 ^ (shapeOf items contentStart mixed).widthAt 0
    rw [shapeOf_widthAt items contentStart mixed (Nat.zero_le _)]
    have hzero : before items 0 = 0 := rfl
    omega
  -- behind as many occurrences as are let through
  · intro j item hj hclear hpassable
    by_contra hopen
    rw [not_or, Bool.not_eq_true, Nat.not_le] at hopen
    have hlt := (List.getElem?_eq_some_iff.mp hj).1
    -- up to item `j` only what is required is there, and then `j` as often as it may be
    obtain ⟨codes, os, r, htakes, hquiet⟩ :=
      (quiet_new items contentStart mixed).path (Nat.zero_le j) (by omega)
      fun k item' _ hk hitem' hrequired => hclear k item' hk hitem' hrequired
    obtain ⟨codes', os', htakes'⟩ := hquiet.takes hj hpassable.1
      (Nat.lt_of_lt_of_le Nat.one_pos (Nat.le_max_right ..)) (Nat.le_refl _)
    have hbehind := quiet_behind contentStart mixed hj hpassable.1 hpassable.2
    have hwidth : positionWidth items contentStart mixed (j + 1)
        = (SeqReader.behind (shapeOf items contentStart mixed) j (Nat.max item.max 1)).width := by
      show _ = (shapeOf items contentStart mixed).widthAfter j (Nat.max item.max 1)
      unfold Shape.widthAfter
      rw [if_neg (by
        rw [shapeOf_maxAt contentStart mixed hj]
        exact Nat.not_lt.mpr (Nat.le_max_left ..)),
        shapeOf_widthAt items contentStart mixed (i := j + 1) hlt]
    refine hread (not_sound_of_ended (htakes.append htakes') hbehind.enough hopen.1 ?_
      fun hbase => absurd hbehind.base hbase)
    rw [hbehind.base, ← hwidth]
    show 0 + before items items.length - before items (j + 1) < _
    omega
  -- behind an item that is open for more, where the codes start with its own
  · intro j item hj hclear hproductions hmore
    by_contra hopen
    rw [not_or, not_or, Bool.not_eq_true, Nat.not_le, Nat.not_lt] at hopen
    obtain ⟨hend, hwide, hfew⟩ := hopen
    have hlt := (List.getElem?_eq_some_iff.mp hj).1
    have hone : 1 ≤ Nat.max item.min 1 := Nat.le_max_right ..
    have hmin : item.min ≤ Nat.max item.min 1 := Nat.le_max_left ..
    obtain ⟨codes, os, r, htakes, hquiet⟩ :=
      (quiet_new items contentStart mixed).path (Nat.zero_le j) (by omega)
      fun k item' _ hk hitem' hrequired => hclear k item' hk hitem' hrequired
    obtain ⟨codes', os', htakes'⟩ := hquiet.takes hj hproductions hone
      (Nat.le_trans (Nat.le_of_lt hmore) (Nat.le_max_left ..))
    have hbase : (shapeOf items contentStart mixed).baseAfter j (Nat.max item.min 1) = 1 := by
      unfold Shape.baseAfter
      rw [shapeOf_maxAt contentStart mixed hj, if_pos hmore]
    have hwidth : (shapeOf items contentStart mixed).widthAfter j (Nat.max item.min 1)
        = repeatedWidth items contentStart mixed j item := by
      unfold Shape.widthAfter
      rw [shapeOf_maxAt contentStart mixed hj, shapeOf_minAt contentStart mixed hj, if_pos hmore,
        if_neg (Nat.not_lt.mpr hmin), shapeOf_repeatWidthAt contentStart mixed hj (by omega)]
    -- the end is not taken for another occurrence, for its code is behind those
    refine hread (not_sound_of_ended (htakes.append htakes') ?_ hend ?_ fun _ => ?_)
    · refine decide_eq_false ?_
      rw [shapeOf_minAt contentStart mixed hj]
      exact Nat.not_lt.mpr hmin
    · show (shapeOf items contentStart mixed).baseAfter j _ + before items items.length
        - before items (j + 1) < 2 ^ (shapeOf items contentStart mixed).widthAfter j _
      rw [hbase, hwidth]
      exact hwide
    · show (shapeOf items contentStart mixed).branches j
        ≤ (shapeOf items contentStart mixed).baseAfter j _ + before items items.length
          - before items (j + 1)
      rw [hbase, shapeOf_branches contentStart mixed hj]
      exact hfew
  -- an item that must not occur is let through once, with all else as it has to be
  · intro j item hj hforbidden hproductions
    by_contra hpassable
    have hpassable : ∀ (k : Nat) (item' : Item), items[k]? = some item' → item'.min ≠ 0 →
        item'.Passable :=
      fun k item' hk hrequired => by
        by_contra hstuck
        exact hpassable ⟨k, item', hk, hrequired, hstuck⟩
    have hlt := (List.getElem?_eq_some_iff.mp hj).1
    have hmax : Nat.max item.max 1 = 1 := by
      rw [hforbidden]
      rfl
    have hmin : item.min ≤ Nat.max item.max 1 := by
      by_cases hoptional : item.min = 0
      · omega
      · exact (hpassable j item hj hoptional).2
    -- the item that must not occur, once, and then all that has to
    obtain ⟨codes, os, r, htakes, hquiet⟩ :=
      (quiet_new items contentStart mixed).path (Nat.zero_le j) (by omega)
      fun k item' _ _ hitem' hrequired => hpassable k item' hitem' hrequired
    obtain ⟨codes₁, os₁, htakes₁⟩ := hquiet.takes hj hproductions
      (Nat.lt_of_lt_of_le Nat.one_pos (Nat.le_max_right ..)) (Nat.le_refl _)
    obtain ⟨codes₂, os₂, r₂, htakes₂, hquiet₂⟩ :=
      (quiet_behind contentStart mixed hj hproductions hmin).path hlt (Nat.le_refl items.length)
      fun k item' _ _ hitem' hrequired => hpassable k item' hitem' hrequired
    have hoccurs : 0 < (os ++ os₁).countP (·.index = j) :=
      Reached.occurs (Reached.new.takes (htakes.append htakes₁)) rfl
    have hlast := hquiet₂.pos
    have hend := hquiet₂.stands.end_lt fun k item' hk hitem' =>
      hquiet₂.skipped k item' hk (List.getElem?_eq_some_iff.mp hitem').1 hitem'
    have hstep := SeqReader.step_ended hquiet₂.enough
      (by rw [hquiet₂.read, shapeOf_total, shapeOf_before items contentStart mixed hlast]
          exact before_mono hlast)
      (fun hbase => absurd hquiet₂.base hbase)
    rw [hquiet₂.base, hquiet₂.read, shapeOf_total,
      shapeOf_before items contentStart mixed hlast] at hstep
    obtain ⟨d, more, hrest⟩ := exists_rest
      (codeBits ((codes ++ codes₁) ++ codes₂ ++ [(_, r₂.width)]))
    obtain ⟨d', hreads, -⟩ := reads_takes ((htakes.append htakes₁).append htakes₂) hend hstep hrest
    have hbound := ((h d _ d' hreads).bounds j item hj).2
    rw [List.countP_append] at hbound
    omega

end Reader

/-- **The reader lets through what the content model permits, and nothing else, exactly when** the
widths leave no room for the code of the end wherever something required is ahead of what has been
read, and nothing is forbidden that has a code. -/
theorem reader_sound_iff {items : List Item} {contentStart : Nat} {mixed : Bool} {l : Layout}
    (hl : Layout.compute items contentStart mixed = .ok l) :
    (∀ d os d', ReadsAll (.new l.shape) d os d' → Sound l.items os)
      ↔ Guarded items contentStart mixed := by
  obtain ⟨hitems, hshape, -⟩ := shape_of_compute hl
  rw [hitems, hshape]
  exact ⟨guarded_of_sound, fun hguarded d os d' h => sound_of_guarded hguarded h⟩

/-- A layout with a required item, which is the whole of `supportedAppProtocolReq`: the code behind
that item's own is not refused but ends the element. -/
theorem not_reader_sound :
    ¬ ∀ (items : List Item) (contentStart : Nat) (mixed : Bool) (l : Layout),
      Layout.compute items contentStart mixed = .ok l →
      ∀ d os d', ReadsAll (.new l.shape) d os d' → Sound l.items os := by
  intro h
  have hsound := h [.element ⟨⟨"AppProtocol", ""⟩, .named ⟨"AppProtocolType", ""⟩, 1, 20⟩] 0 false _
    rfl (.new [0x80]) [] ⟨⟨[0x80], 1, by decide⟩, .new, 0⟩
      (.ended (show _ = EStateM.Result.ok (Step.ended, SeqReader.new _) _ by rfl))
  have hmin := (hsound.bounds 0 _ rfl).1
  exact absurd hmin (by decide)

/-- An optional item behind a required one is enough to keep the code of the end out of reach in
front of the latter: both codes the width has room for are taken. -/
theorem reader_sound_iff_optional :
    Layout.compute [.element ⟨⟨"A", ""⟩, .anonymous 0, 1, 1⟩,
        .element ⟨⟨"B", ""⟩, .anonymous 0, 0, 1⟩] 0 false
      = .ok (Layout.ofItems [.element ⟨⟨"A", ""⟩, .anonymous 0, 1, 1⟩,
          .element ⟨⟨"B", ""⟩, .anonymous 0, 0, 1⟩] 0 false)
      ∧ ∀ d os d', ReadsAll (.new (Layout.ofItems
          [.element ⟨⟨"A", ""⟩, .anonymous 0, 1, 1⟩, .element ⟨⟨"B", ""⟩, .anonymous 0, 0, 1⟩] 0
            false).shape) d os d' →
        Sound [.element ⟨⟨"A", ""⟩, .anonymous 0, 1, 1⟩, .element ⟨⟨"B", ""⟩, .anonymous 0, 0, 1⟩]
          os := by
  refine ⟨rfl, (reader_sound_iff (by rfl : Layout.compute [.element ⟨⟨"A", ""⟩, .anonymous 0, 1, 1⟩,
    .element ⟨⟨"B", ""⟩, .anonymous 0, 0, 1⟩] 0 false = _)).mpr ⟨?_, ?_, ?_, ?_⟩⟩
  · exact .inr (by decide)
  · rintro (_ | _ | j) item hitem - -
    · exact .inl (by decide)
    · exact .inl (by decide)
    · cases hitem
  · rintro (_ | _ | j) item hitem - - hmax
    · cases hitem
      exact absurd hmax (by decide)
    · cases hitem
      exact absurd hmax (by decide)
    · cases hitem
  · rintro (_ | _ | j) item hitem hmax -
    · cases hitem
      cases hmax
    · cases hitem
      cases hmax
    · cases hitem

end Iso15118.Codegen
