import Iso15118.Codegen.Layout

/-!
# Writing and reading a content model

The items of a layout, each so many times and in these branches, are written one after another; the
reader finds the same occurrences in the same order.

`Paired` relates the two: between items writer and reader stand at the same position with the same
shift and the same width, and whatever the one may write next, the other takes.
**`sequence_roundtrip`** follows item by item.
-/

namespace Iso15118.Codegen

open Iso15118.Lib Iso15118.Exi

/-! ## What the generated code does

The writer goes through the items in order and writes the occurrences of each. Its codes are
written down here without the stream, and then shown to be what it puts out. -/

/-- The occurrences of item `j` from the `c`-th on, in their branches. -/
def occurrencesFrom (j : Nat) : Nat → List Nat → List Occurrence
  | _, [] => []
  | c, b :: bs => ⟨j, b, c = 0⟩ :: occurrencesFrom j (c + 1) bs

/-- The occurrences of the items from `j` on. -/
def allOccurrences : Nat → List (List Nat) → List Occurrence
  | _, [] => []
  | j, bs :: rest => occurrencesFrom j 0 bs ++ allOccurrences (j + 1) rest

/-- The event codes of occurrences of item `j`. -/
def codesFrom (w : SeqWriter) (j : Nat) : Nat → List Nat → List (Nat × Nat)
  | _, [] => []
  | c, b :: bs => w.codeOf j c b :: codesFrom w j (c + 1) bs

/-- The writer behind an item, which is finished if it is present. -/
def writerAfter (w : SeqWriter) (j : Nat) (bs : List Nat) : SeqWriter :=
  if bs.length > 0 then w.finish j bs.length else w

/-- The event codes of the items from `j` on, and of the end. -/
def allCodes : SeqWriter → Nat → List (List Nat) → List (Nat × Nat)
  | w, _, [] => [w.endCode]
  | w, j, bs :: rest => codesFrom w j 0 bs ++ allCodes (writerAfter w j bs) (j + 1) rest

/-- `start_branch`, for occurrences of item `j`. -/
def writeFrom (w : SeqWriter) (j : Nat) : Nat → List Nat → EStateM ExiError Encoder Unit
  | _, [] => pure ()
  | c, b :: bs => do
      w.startBranch j c b
      writeFrom w j (c + 1) bs

/-- The items from `j` on, and the end. -/
def writeItems : SeqWriter → Nat → List (List Nat) → EStateM ExiError Encoder Unit
  | w, _, [] => w.close
  | w, j, bs :: rest => do
      writeFrom w j 0 bs
      writeItems (writerAfter w j bs) (j + 1) rest

/-- As many occurrences as the item may have, in branches it has. -/
structure Item.Admits (item : Item) (bs : List Nat) : Prop where
  min : item.min ≤ bs.length
  max : bs.length ≤ item.max
  branches : ∀ b ∈ bs, b < item.productions

/-- As many occurrences as a reader lets through: there may be one even of what must not occur. -/
structure Item.Lets (item : Item) (bs : List Nat) : Prop where
  min : item.min ≤ bs.length
  max : bs.length ≤ Nat.max item.max 1
  branches : ∀ b ∈ bs, b < item.productions

theorem Item.Admits.lets {item : Item} {bs : List Nat} (h : item.Admits bs) : item.Lets bs :=
  ⟨h.min, Nat.le_trans h.max (Nat.le_max_left ..), h.branches⟩

/-- More than one of them are as many as the item may have. -/
theorem Item.Lets.max_of_many {item : Item} {bs : List Nat} (h : item.Lets bs)
    (hmany : 1 < bs.length) : bs.length ≤ item.max := by
  have hmax := h.max
  rcases Nat.le_total item.max 1 with hone | hmore
  · have heq : Nat.max item.max 1 = 1 := Nat.max_eq_right hone
    omega
  · have heq : Nat.max item.max 1 = item.max := Nat.max_eq_left hmore
    omega

theorem puts_event (code width : Nat) :
    Puts ExiError.outputFull (Encoder.event code width) (bitsOf width code) :=
  Encoder.puts_prim (BitWriter.puts_writeBits code width)

theorem puts_writeFrom (w : SeqWriter) (j c : Nat) (bs : List Nat) :
    Puts ExiError.outputFull (writeFrom w j c bs) (codeBits (codesFrom w j c bs)) := by
  induction bs generalizing c with
  | nil => exact Puts.pure
  | cons b bs ih => exact (puts_event _ _).seq (ih (c + 1))

theorem puts_writeItems (w : SeqWriter) (j : Nat) (counts : List (List Nat)) :
    Puts ExiError.outputFull (writeItems w j counts) (codeBits (allCodes w j counts)) := by
  induction counts generalizing w j with
  | nil =>
    have hclose := puts_event w.endCode.1 w.endCode.2
    rw [← List.append_nil (bitsOf _ _)] at hclose
    exact hclose
  | cons bs rest ih =>
    have hseq := (puts_writeFrom w j 0 bs).seq (ih (writerAfter w j bs) (j + 1))
    unfold codeBits at hseq ⊢
    rw [← List.flatMap_append] at hseq
    exact hseq

/-! ## In step

Between two items both sides stand at the same position. One item takes the two from one such
point to the next, whether it is present or not; by induction from the last item to the first. -/

section Paired

variable (items : List Item) (contentStart : Nat) (mixed : Bool)

/-- The writer and the reader between two items. -/
structure Paired (w : SeqWriter) (r : SeqReader) : Prop where
  written : w.shape = shapeOf items contentStart mixed
  read : r.shape = shapeOf items contentStart mixed
  pos : r.pos = w.pos
  base : r.base = w.base
  width : r.width = w.width
  enough : r.belowMin = false
  /-- an item that is open for more has one code, and the shift is by that one -/
  narrow : r.base ≠ 0 → r.repeatingBranches ≤ 1
  stands : Stands items contentStart mixed w.pos w.base w.width

theorem paired_new :
    Paired items contentStart mixed (.new (shapeOf items contentStart mixed))
      (.new (shapeOf items contentStart mixed)) where
  written := rfl
  read := rfl
  pos := rfl
  base := rfl
  width := rfl
  enough := rfl
  narrow _ := Nat.le_refl _
  stands := by
    have hwidth := shapeOf_widthAt items contentStart mixed (Nat.zero_le items.length)
    show Stands items contentStart mixed 0 0 ((shapeOf items contentStart mixed).widthAt 0)
    rw [hwidth]
    exact .past (Nat.zero_le _)

variable {items contentStart mixed} {w : SeqWriter} {r : SeqReader}

/-- The first occurrence of an item that none but optional ones are before. -/
theorem Paired.first (h : Paired items contentStart mixed w r) {j b : Nat} {item : Item}
    (hpos : w.pos ≤ j) (hj : items[j]? = some item)
    (hoptional : ∀ k item, w.pos ≤ k → k < j → items[k]? = some item → item.min = 0)
    (hb : b < item.productions) :
    Takes r [w.codeOf j 0 b] [⟨j, b, true⟩]
      (.behind (shapeOf items contentStart mixed) j 1) := by
  have hlt := (List.getElem?_eq_some_iff.mp hj).1
  have hbefore : before items w.pos ≤ before items j := before_mono hpos
  have hcode := h.stands.branch_lt hpos hj hoptional hb
  -- the two count the same distance
  have hvalue : r.base + r.shape.before j - r.shape.before r.pos + b
      = w.base + before items j - before items w.pos + b := by
    rw [h.read, h.pos, h.base, shapeOf_before items contentStart mixed (by omega),
      shapeOf_before items contentStart mixed (by omega)]
  have hstep := SeqReader.step_first (r := r) (j := j) (b := b)
    (by rw [h.read]; exact shapeOf_sorted items contentStart mixed) h.enough
    (by rw [h.pos]; exact hpos) (by rw [h.read, shapeOf_len]; exact hlt)
    (fun k hk hkj => by
      rw [h.read]
      have hget : items[k]? = some items[k] := List.getElem?_eq_getElem (by omega)
      rw [shapeOf_minAt contentStart mixed hget]
      exact hoptional k _ (by rw [← h.pos]; exact hk) hkj hget)
    (by rw [h.read, shapeOf_branches contentStart mixed hj]; exact hb)
    -- the code is beyond those of the open item
    (fun hbase => by
      have hnarrow := h.narrow hbase
      rw [hvalue]
      rw [h.base] at hbase
      omega)
  have htakes := Takes.single (r := r) (by rw [hvalue, h.width]; exact hcode) hstep
  rw [hvalue, h.read, h.width] at htakes
  unfold SeqWriter.codeOf
  rw [if_pos rfl, h.written, shapeOf_before items contentStart mixed (by omega),
    shapeOf_before items contentStart mixed (by omega)]
  exact htakes

/-- Further occurrences, each while the item is open for one. -/
theorem takes_again {j c : Nat} {item : Item} (hj : items[j]? = some item)
    (hsingle : item.productions = 1) (hshape : w.shape = shapeOf items contentStart mixed)
    (hc : 0 < c) {bs : List Nat} (hmax : c + bs.length ≤ item.max)
    (hbs : ∀ b ∈ bs, b < item.productions) :
    Takes (.behind (shapeOf items contentStart mixed) j c) (codesFrom w j c bs)
      (occurrencesFrom j c bs) (.behind (shapeOf items contentStart mixed) j (c + bs.length)) := by
  induction bs generalizing c with
  | nil => exact .nil _
  | cons b bs ih =>
    rw [List.length_cons] at hmax ⊢
    have hb := hbs b List.mem_cons_self
    have hstep := SeqReader.step_again (s := shapeOf items contentStart mixed) (j := j) (c := c)
      (b := b) (by rw [shapeOf_maxAt contentStart mixed hj]; omega)
      (by rw [shapeOf_branches contentStart mixed hj]; exact hb)
    have htakes := Takes.single (by
      have hzero : b = 0 := by omega
      rw [hzero]
      exact Nat.two_pow_pos _) hstep
    have hcode : (b, (SeqReader.behind (shapeOf items contentStart mixed) j c).width)
        = w.codeOf j c b := by
      rw [SeqWriter.codeOf_again (by omega) (by
        rw [hshape, shapeOf_maxAt contentStart mixed hj]
        omega), hshape]
      rfl
    rw [hcode] at htakes
    have hfirst : decide (c = 0) = false := decide_eq_false (by omega)
    show Takes _ (w.codeOf j c b :: _) (⟨j, b, decide (c = 0)⟩ :: _) _
    rw [hfirst, show c + (bs.length + 1) = c + 1 + bs.length by omega]
    exact htakes.append (ih (by omega) (by omega) fun b' hb' => hbs b' (List.mem_cons_of_mem b hb'))

/-- An item that is present leaves the two in step. -/
theorem Paired.item (h : Paired items contentStart mixed w r) {j : Nat} {item : Item}
    {bs : List Nat} (hpos : w.pos ≤ j) (hj : items[j]? = some item)
    (hoptional : ∀ k item, w.pos ≤ k → k < j → items[k]? = some item → item.min = 0)
    (hlets : item.Lets bs) (hsingle : 1 < item.max → item.productions ≤ 1)
    (hpresent : 0 < bs.length) :
    ∃ r', Takes r (codesFrom w j 0 bs) (occurrencesFrom j 0 bs) r'
      ∧ Paired items contentStart mixed (w.finish j bs.length) r' := by
  have hproductions : 0 < item.productions := by
    obtain ⟨b, hb⟩ := List.exists_mem_of_length_pos hpresent
    exact Nat.lt_of_le_of_lt (Nat.zero_le b) (hlets.branches b hb)
  refine ⟨.behind (shapeOf items contentStart mixed) j bs.length, ?_, ?_⟩
  -- the first occurrence is found past the optional items; the others are repeats of it
  · cases bs with
    | nil => exact absurd hpresent (Nat.lt_irrefl 0)
    | cons b bs =>
      have hfirst := h.first hpos hj hoptional (hlets.branches b List.mem_cons_self)
      by_cases hmore : bs = []
      · subst hmore
        exact hfirst
      · have hlen := List.length_pos_of_ne_nil hmore
        have hmax := hlets.max_of_many (by rw [List.length_cons]; omega)
        rw [List.length_cons] at hmax ⊢
        have hone := hsingle (by omega)
        rw [Nat.add_comm]
        exact hfirst.append (takes_again hj (by omega) h.written Nat.one_pos
          (by omega) fun b' hb' => hlets.branches b' (List.mem_cons_of_mem b hb'))
  · have hlt := (List.getElem?_eq_some_iff.mp hj).1
    -- writer and reader stand after the item, with the same base and width
    refine ⟨h.written, rfl, rfl, ?_, ?_, ?_, ?_, ?_⟩
    · show _ = w.shape.baseAfter j bs.length
      rw [h.written]
      rfl
    · show _ = w.shape.widthAfter j bs.length
      rw [h.written]
      rfl
    · refine decide_eq_false ?_
      rw [shapeOf_minAt contentStart mixed hj]
      have hmin := hlets.min
      omega
    · intro hbase
      have hopen : bs.length < (shapeOf items contentStart mixed).maxAt j := by
        by_contra hover
        exact hbase (if_neg hover)
      rw [shapeOf_maxAt contentStart mixed hj] at hopen
      show (shapeOf items contentStart mixed).branches j ≤ 1
      rw [shapeOf_branches contentStart mixed hj]
      exact hsingle (by omega)
    · show Stands items contentStart mixed (j + 1) (w.shape.baseAfter j bs.length)
        (w.shape.widthAfter j bs.length)
      rw [h.written]
      exact stands_after hj hproductions hpresent hlets.min

/-- The end, where none but optional items are left. -/
theorem Paired.ended (h : Paired items contentStart mixed w r)
    (hoptional : ∀ k item, w.pos ≤ k → items[k]? = some item → item.min = 0) :
    w.endCode = (w.endCode.1, r.width) ∧ w.endCode.1 < 2 ^ r.width
      ∧ r.step w.endCode.1 = .ok (.ended, r) := by
  have hlast := h.stands.pos_le
  have hbefore : before items w.pos ≤ before items items.length := before_mono hlast
  have hvalue : w.endCode.1 = r.base + r.shape.total - r.shape.before r.pos := by
    show w.base + w.shape.total - w.shape.before w.pos = _
    rw [h.written, h.read, h.base, h.pos]
  have hnumber : w.endCode.1 = w.base + before items items.length - before items w.pos := by
    show w.base + w.shape.total - w.shape.before w.pos = _
    rw [h.written, shapeOf_total, shapeOf_before items contentStart mixed hlast]
  refine ⟨Prod.ext rfl h.width.symm, ?_, ?_⟩
  · rw [hnumber, h.width]
    exact h.stands.end_lt hoptional
  · rw [hvalue]
    refine SeqReader.step_ended h.enough ?_ (fun hbase => ?_)
    · rw [h.read, h.pos, shapeOf_total, shapeOf_before items contentStart mixed hlast]
      exact hbefore
    · have hnarrow := h.narrow hbase
      rw [← hvalue, hnumber]
      rw [h.base] at hbase
      omega

/-- The items from `j` on, where those the writer has not passed yet were optional. Only what occurs
has to have a single code if it may occur again. -/
theorem Paired.takes_all {j : Nat} {counts : List (List Nat)}
    (h : Paired items contentStart mixed w r) (hpos : w.pos ≤ j)
    (hoptional : ∀ k item, w.pos ≤ k → k < j → items[k]? = some item → item.min = 0)
    (hlets : List.Forall₂ Item.Lets (items.drop j) counts)
    (hsingle : ∀ (i : Nat) (item : Item) (bs : List Nat), items[j + i]? = some item →
      counts[i]? = some bs → 0 < bs.length → 1 < item.max → item.productions ≤ 1) :
    ∃ codes r₁ code, allCodes w j counts = codes ++ [(code, r₁.width)]
      ∧ Takes r codes (allOccurrences j counts) r₁ ∧ code < 2 ^ r₁.width
      ∧ r₁.step code = .ok (.ended, r₁) := by
  -- induction on the items: one that is absent is optional, and is passed over by the next
  induction counts generalizing w r j with
  -- behind the last item there is the end
  | nil =>
    have hnone := List.forall₂_nil_right_iff.mp hlets
    have hlen := List.drop_eq_nil_iff.mp hnone
    obtain ⟨hcode, hlt, hstep⟩ := h.ended fun k item hk hitem =>
      hoptional k item hk (by have hin := (List.getElem?_eq_some_iff.mp hitem).1; omega) hitem
    exact ⟨[], r, w.endCode.1, congrArg (· :: []) hcode, .nil r, hlt, hstep⟩
  | cons bs rest ih =>
    obtain ⟨item, more, hitem, hmore, hdrop⟩ := List.forall₂_cons_right_iff.mp hlets
    have hj : items[j]? = some item := by
      rw [← List.head?_drop, hdrop]
      rfl
    have hmore' : List.Forall₂ Item.Lets (items.drop (j + 1)) rest := by
      rw [← List.tail_drop, hdrop]
      exact hmore
    have hsingle' : ∀ (i : Nat) (item : Item) (bs : List Nat), items[j + 1 + i]? = some item →
        rest[i]? = some bs → 0 < bs.length → 1 < item.max → item.productions ≤ 1 := by
      intro i item bs hi hbs
      rw [Nat.add_right_comm] at hi
      exact hsingle (i + 1) item bs hi hbs
    -- an item that occurs takes the two of them behind it
    by_cases hpresent : 0 < bs.length
    · obtain ⟨r', htakes, hpaired⟩ := h.item hpos hj hoptional hitem
        (hsingle 0 item bs hj rfl hpresent) hpresent
      obtain ⟨codes, r₁, code, hcodes, htakes', hlt, hstep⟩ := ih hpaired (Nat.le_refl (j + 1))
        (fun k item hk hkj => absurd hkj (Nat.not_lt.mpr hk)) hmore' hsingle'
      refine ⟨codesFrom w j 0 bs ++ codes, r₁, code, ?_, htakes.append htakes', hlt, hstep⟩
      show codesFrom w j 0 bs ++ allCodes (writerAfter w j bs) (j + 1) rest = _
      rw [writerAfter, if_pos hpresent, hcodes, List.append_assoc]
    -- one that does not is optional, and leaves them where they were
    · have hnil : bs = [] := List.eq_nil_of_length_eq_zero (by omega)
      subst hnil
      have hmin := hitem.min
      rw [List.length_nil] at hmin
      have hskipped : ∀ k item', w.pos ≤ k → k < j + 1 → items[k]? = some item' →
          item'.min = 0 := by
        intro k item' hk hkj hitem'
        by_cases heq : k = j
        · subst heq
          rw [hj] at hitem'
          cases hitem'
          omega
        · exact hoptional k item' hk (by omega) hitem'
      obtain ⟨codes, r₁, code, hcodes, hrun⟩ := ih h (by omega) hskipped hmore' hsingle'
      exact ⟨codes, r₁, code, hcodes, hrun⟩

end Paired

/-- **A content model is read back.** For the shape of any layout whose repeatable items have one
event code each: any occurrences its items admit are written wherever there is room for their codes,
and are read off from where they were written, in order, with their branches, and up to the last of
their bits. -/
theorem sequence_roundtrip {items : List Item} {contentStart : Nat} {mixed : Bool} {l : Layout}
    (hl : Layout.compute items contentStart mixed = .ok l)
    (hsingle : ∀ item ∈ items, 1 < item.max → item.productions = 1) {counts : List (List Nat)}
    (hadmits : List.Forall₂ Item.Admits items counts) :
    ∃ size : Nat, ∀ e : Encoder,
      (8 * e.bits.buf.length < e.bits.pos + size →
        ∃ e', writeItems (.new l.shape) 0 counts e = .error .outputFull e')
      ∧ (e.bits.pos + size ≤ 8 * e.bits.buf.length →
        ∃ e', writeItems (.new l.shape) 0 counts e = .ok () e' ∧ e'.bits.pos = e.bits.pos + size
          ∧ ∃ h : e.bits.pos ≤ 8 * e'.bits.buf.length, ∀ values depth, ∃ d',
            ReadsAll (.new l.shape) (readsFrom e e' values depth h) (allOccurrences 0 counts) d'
              ∧ d'.bits.pos = e'.bits.pos) := by
  obtain ⟨-, hshape, -⟩ := shape_of_compute hl
  rw [hshape]
  -- the codes the writer puts out are codes the reader takes
  obtain ⟨codes, r₁, code, hcodes, htakes, hlt, hstep⟩ :=
    (paired_new items contentStart mixed).takes_all (Nat.zero_le 0)
    (fun k item _ hk => absurd hk (Nat.not_lt_zero k)) (hadmits.imp fun _ _ => Item.Admits.lets)
    (fun i item bs hitem _ _ hmax =>
      Nat.le_of_eq (hsingle item (List.mem_of_getElem? hitem) hmax))
  have hputs := puts_writeItems (.new (shapeOf items contentStart mixed)) 0 counts
  refine ⟨(codeBits (allCodes (.new (shapeOf items contentStart mixed)) 0 counts)).length,
    fun e => ⟨fun hfull => ?_, fun hroom => ?_⟩⟩
  -- too little room
  · obtain ⟨e', hwrite, -⟩ := (hputs _ e rfl).2 (by
      show 8 * e.bits.buf.length - e.bits.pos < _
      have hinside := e.bits.inside
      omega)
    exact ⟨e', hwrite⟩
  -- enough of it
  · obtain ⟨e', hwrite, hwritten, -⟩ := (hputs _ e rfl).1 (by
      show _ ≤ 8 * e.bits.buf.length - e.bits.pos
      omega)
    have hpos := pos_of_written hwritten
    have hinside := e'.bits.inside
    refine ⟨e', hwrite, hpos, by omega, fun values depth => ?_⟩
    have hrest := rest_readsFrom values depth hwritten (by omega)
    rw [hcodes] at hrest
    obtain ⟨d', hreads, hmore, hframe⟩ := reads_takes htakes hlt hstep hrest
    exact ⟨d', hreads, pos_of_rest (congrArg Decoder.Context.buf hframe) hmore⟩

/-- Two occurrences where up to three are permitted, and the second branch of an optional choice. -/
theorem sequence_roundtrip_choice :
    ∃ size : Nat, ∀ e : Encoder,
      let items : List Item :=
        [.element ⟨⟨"A", ""⟩, .anonymous 0, 2, 3⟩,
          .choice [.element ⟨⟨"B", ""⟩, .anonymous 0, 1, 1⟩, .wildcard] 0 1]
      let shape := (Layout.ofItems items 0 false).shape
      (8 * e.bits.buf.length < e.bits.pos + size →
        ∃ e', writeItems (.new shape) 0 [[0, 0], [1]] e = .error .outputFull e')
      ∧ (e.bits.pos + size ≤ 8 * e.bits.buf.length →
        ∃ e', writeItems (.new shape) 0 [[0, 0], [1]] e = .ok () e'
          ∧ e'.bits.pos = e.bits.pos + size
          ∧ ∃ h : e.bits.pos ≤ 8 * e'.bits.buf.length, ∀ values depth, ∃ d',
            ReadsAll (.new shape) (readsFrom e e' values depth h)
              [⟨0, 0, true⟩, ⟨0, 0, false⟩, ⟨1, 1, true⟩] d' ∧ d'.bits.pos = e'.bits.pos) :=
  sequence_roundtrip (by rfl : Layout.compute [.element ⟨⟨"A", ""⟩, .anonymous 0, 2, 3⟩,
      .choice [.element ⟨⟨"B", ""⟩, .anonymous 0, 1, 1⟩, .wildcard] 0 1] 0 false = _) (by decide)
    (.cons ⟨by decide, by decide, by decide⟩ (.cons ⟨by decide, by decide, by decide⟩ .nil))

end Iso15118.Codegen
