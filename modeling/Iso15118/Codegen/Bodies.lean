import Iso15118.Codegen.Emit
import Iso15118.Codegen.Soundness

/-!
# The bodies of generated structs

A value with as many occurrences of every field as a reader lets through passes the checks of its
encoder and of its decoder, and **`carries_body`** says that it is read back from what is written
of it, if the content of its occurrences is.
-/

namespace Iso15118.Codegen

open Iso15118.Lib Iso15118.Exi

variable {α : Type} {C : Slot → FieldCodec α} {k : Nat}

/-! ## The content of an occurrence

A field has one kind or, for a choice, one for each branch. Between the event codes of an element
its content is written as the kind has it; the content of character data and attributes stands by
itself. -/

/-- The content is within its bounds, and is read back from what is written of it. -/
structure Emitted.Holds (C : Slot → FieldCodec α) (k : Nat) (f : Emitted) (x : Nat × α) : Prop where
  within : ∀ kind slot, (f.kind = .single kind slot
    ∨ ∃ variants, f.kind = .choice variants ∧ variants[x.1]? = some (kind, slot)) →
    (C slot).Within x.2
  carries : Carries k k (encodeContent C f x) (decodeContent C f x.1) x

/-- Event codes around what is read back. -/
theorem carries_kind {kind : Kind} {isAttribute : Bool} {slot : Slot} {v : α}
    (h : Carries k k ((C slot).write v) (C slot).read v) (hkind : kind ≠ .unsupported) :
    Carries k k (encodeKind C kind isAttribute slot v) (decodeKind C kind isAttribute slot) v := by
  cases kind with
  | struct => exact h
  | scalar =>
    cases isAttribute with
    | true => exact h
    | false =>
      refine (carries_expectEvent (by decide)).bind ?_
      exact h.bind ((carries_expectEvent (by decide)).map rfl)
  | unsupported => exact absurd rfl hkind

/-! ## Where the values go

The reader stores what it has decoded by the number of the field. As occurrences come in the
order of the items, what a field has in the end is the list of its own, in order. -/

/-- Values stored one after another. -/
def storeAll (fields : List Emitted) (acc : List (List (Nat × α)))
    (ovs : List (Occurrence × (Nat × α))) : List (List (Nat × α)) :=
  ovs.foldl (fun acc ov => store fields acc ov.1 ov.2) acc

theorem length_store (fields : List Emitted) (acc : List (List (Nat × α))) (o : Occurrence)
    (x : Nat × α) : (store fields acc o x).length = acc.length := by
  unfold store
  cases fields[o.index]? with
  | none => rfl
  | some f => exact List.length_modify ..

theorem length_storeAll (fields : List Emitted) (ovs : List (Occurrence × (Nat × α)))
    (acc : List (List (Nat × α))) : (storeAll fields acc ovs).length = acc.length := by
  induction ovs generalizing acc with
  | nil => rfl
  | cons ov ovs ih => exact (ih _).trans (length_store fields acc ov.1 ov.2)

/-- A field holds its occurrences in order, as long as there are no two where there is room for
one. -/
theorem get_storeAll {fields : List Emitted} {j : Nat} {f : Emitted} (hf : fields[j]? = some f)
    {ovs : List (Occurrence × (Nat × α))} {acc : List (List (Nat × α))} {xs : List (Nat × α)}
    (hacc : acc[j]? = some xs)
    (hroom : f.max ≤ 1 → xs.length + ovs.countP (·.1.index = j) ≤ 1) :
    (storeAll fields acc ovs)[j]?
      = some (xs ++ (ovs.filter (·.1.index = j)).map Prod.snd) := by
  -- a slot of one value is overwritten, so there must be room for what is stored
  induction ovs generalizing acc xs with
  | nil =>
    show acc[j]? = some (xs ++ [])
    rw [List.append_nil]
    exact hacc
  | cons ov ovs ih =>
    rw [List.countP_cons] at hroom
    show (storeAll fields (store fields acc ov.1 ov.2) ovs)[j]? = _
    -- an occurrence of the field is appended, or takes the place that is empty
    by_cases hindex : ov.1.index = j
    · have hstore : (store fields acc ov.1 ov.2)[j]? = some (xs ++ [ov.2]) := by
        unfold store
        rw [hindex, hf]
        dsimp only
        rw [List.getElem?_modify_eq, hacc]
        show some (if f.max > 1 then xs ++ [ov.2] else [ov.2]) = _
        by_cases hmany : f.max > 1
        · rw [if_pos hmany]
        · have hnone := hroom (by omega)
          rw [if_pos (by simpa using hindex)] at hnone
          have hnil : xs = [] := List.eq_nil_of_length_eq_zero (by omega)
          rw [if_neg hmany, hnil]
          rfl
      rw [ih hstore ?_, List.filter_cons_of_pos (by simpa using hindex), List.map_cons,
        List.append_assoc]
      · rfl
      · intro hone
        have hnone := hroom hone
        rw [if_pos (by simpa using hindex)] at hnone
        rw [List.length_append, List.length_singleton]
        omega
    -- one of another field leaves the slot as it is
    · have hstore : (store fields acc ov.1 ov.2)[j]? = some xs := by
        unfold store
        cases fields[ov.1.index]? with
        | none => exact hacc
        | some g =>
          dsimp only
          rw [List.getElem?_modify_ne _ _ hindex]
          exact hacc
      rw [ih hstore ?_, List.filter_cons_of_neg (by simpa using hindex)]
      intro hone
      have hnone := hroom hone
      rw [if_neg (by simpa using hindex)] at hnone
      omega

/-- The occurrences of item `j` from the `c`-th on, with their values. -/
def valuedFrom (j : Nat) : Nat → List (Nat × α) → List (Occurrence × (Nat × α))
  | _, [] => []
  | c, x :: xs => (⟨j, x.1, c = 0⟩, x) :: valuedFrom j (c + 1) xs

/-- The occurrences of the items from `j` on, with their values. -/
def valued : Nat → List (List (Nat × α)) → List (Occurrence × (Nat × α))
  | _, [] => []
  | j, xs :: v => valuedFrom j 0 xs ++ valued (j + 1) v

/-- The branches of a value's occurrences. -/
def branchesOf (v : List (List (Nat × α))) : List (List Nat) := v.map fun xs => xs.map Prod.fst

theorem map_fst_valuedFrom (j c : Nat) (xs : List (Nat × α)) :
    (valuedFrom j c xs).map Prod.fst = occurrencesFrom j c (xs.map Prod.fst) := by
  induction xs generalizing c with
  | nil => rfl
  | cons x xs ih => exact congrArg _ (ih (c + 1))

theorem map_fst_valued (j : Nat) (v : List (List (Nat × α))) :
    (valued j v).map Prod.fst = allOccurrences j (branchesOf v) := by
  induction v generalizing j with
  | nil => rfl
  | cons xs v ih =>
    show (valuedFrom j 0 xs ++ valued (j + 1) v).map Prod.fst = _
    rw [List.map_append, map_fst_valuedFrom, ih]
    rfl

theorem filter_valuedFrom (i j c : Nat) (xs : List (Nat × α)) :
    ((valuedFrom j c xs).filter (·.1.index = i)).map Prod.snd = if j = i then xs else [] := by
  induction xs generalizing c with
  | nil => simp [valuedFrom]
  | cons x xs ih =>
    unfold valuedFrom
    by_cases hij : j = i
    · rw [List.filter_cons_of_pos (by simpa using hij), List.map_cons, ih, if_pos hij, if_pos hij]
    · rw [List.filter_cons_of_neg (by simpa using hij), ih, if_neg hij, if_neg hij]

/-- The values of an item are those of its occurrences. -/
theorem filter_valued (i j : Nat) (v : List (List (Nat × α))) :
    ((valued j v).filter (·.1.index = i)).map Prod.snd
      = if j ≤ i then v.getD (i - j) [] else [] := by
  induction v generalizing j with
  | nil => simp [valued]
  | cons xs v ih =>
    show ((valuedFrom j 0 xs ++ valued (j + 1) v).filter (·.1.index = i)).map Prod.snd = _
    rw [List.filter_append, List.map_append, filter_valuedFrom, ih]
    by_cases hle : j + 1 ≤ i
    · rw [if_neg (by omega), if_pos hle, if_pos (by omega),
        show i - j = i - (j + 1) + 1 by omega]
      rfl
    · rw [if_neg hle, List.append_nil]
      by_cases hij : j = i
      · subst hij
        rw [if_pos rfl, if_pos (Nat.le_refl j), Nat.sub_self]
        rfl
      · rw [if_neg hij, if_neg (by omega)]

/-! ## Writing and reading

The loop over the fields is the writer of `Codegen/Coding` with contents in between. A struct is
carried if the codes are taken by the reader and each content is carried; the loops are joined
occurrence by occurrence. -/

/-- The content of an occurrence, where it is of a field. -/
def contentOf (C : Slot → FieldCodec α) (fields : List Emitted)
    (ov : Occurrence × (Nat × α)) : EStateM ExiError Encoder Unit :=
  match fields[ov.1.index]? with
  | some f => encodeContent C f ov.2
  | none => pure ()

/-- The event codes, each followed by the content of its occurrence, and the codes behind these. -/
def writeCoded (C : Slot → FieldCodec α) (fields : List Emitted) :
    List (Nat × Nat) → List (Occurrence × (Nat × α)) → EStateM ExiError Encoder Unit
  | [], _ => pure ()
  | code :: codes, ovs => do
      Encoder.event code.1 code.2
      match ovs with
      | [] => writeCoded C fields codes []
      | ov :: ovs => do
          contentOf C fields ov
          writeCoded C fields codes ovs

/-- The codes a reader takes, and that of the end, carry the values of the occurrences they
introduce. -/
theorem carries_takes {fields : List Emitted} {r r₁ r' : SeqReader} {codes : List (Nat × Nat)}
    {ovs : List (Occurrence × (Nat × α))} {code : Nat}
    (h : Takes r codes (ovs.map Prod.fst) r₁) (hcode : code < 2 ^ r₁.width)
    (hended : r₁.step code = .ok (.ended, r'))
    (hall : ∀ ov ∈ ovs, ∃ f, fields[ov.1.index]? = some f ∧ f.phantom = false
      ∧ ov.2.1 = ov.1.branch ∧ f.Holds C k ov.2)
    {n : Nat} (hn : ovs.length < n) (acc : List (List (Nat × α))) :
    Carries k k (writeCoded C fields (codes ++ [(code, r₁.width)]) ovs)
      (decodeLoop C fields n r acc) (storeAll fields acc ovs) := by
  -- induction on the occurrences, one turn of the loop for each
  induction ovs generalizing codes r acc n with
  | nil =>
    cases h
    obtain ⟨n, rfl⟩ : ∃ m, n = m + 1 := ⟨n - 1, by omega⟩
    have hnext : Carries k k (Encoder.event code r₁.width) r₁.next (.ended, r') :=
      .of_gets (puts_event code r₁.width) (SeqReader.gets_next hcode hended)
    have hwrite : writeCoded C fields ([] ++ [(code, r₁.width)]) []
        = Encoder.event code r₁.width := bind_pure (Encoder.event code r₁.width)
    rw [hwrite]
    exact hnext.map rfl
  | cons ov ovs ih =>
    cases h with
    | @cons _ r₂ _ code' codes' _ _ hcode' hstep htakes =>
      obtain ⟨n, rfl⟩ : ∃ m, n = m + 1 := ⟨n - 1, by omega⟩
      rw [List.length_cons] at hn
      obtain ⟨f, hf, hreal, hbranch, hholds⟩ := hall ov List.mem_cons_self
      have hnext : Carries k k (Encoder.event code' r.width) r.next (.item ov.1, r₂) :=
        .of_gets (puts_event code' r.width) (SeqReader.gets_next hcode' hstep)
      have hcontent : Carries k k (contentOf C fields ov) (decodeField C fields ov.1) ov.2 := by
        unfold contentOf decodeField
        rw [hf]
        dsimp only
        rw [if_neg (by rw [hreal]; decide), ← hbranch]
        exact hholds.carries
      -- the event, its content, and the rest
      refine hnext.bind (hcontent.bind ?_)
      exact ih htakes (fun ov' hov' => hall ov' (List.mem_cons_of_mem ov hov')) (by omega) _

/-- Occurrences of a field, which are no more than a `u32` counts, are written as their codes and
their contents. -/
theorem writeCoded_from {fields : List Emitted} {w : SeqWriter} {j : Nat} {f : Emitted}
    {item : Item} (hf : fields[j]? = some f) (hof : f.Of item) (hreal : f.phantom = false)
    (codes : List (Nat × Nat)) (ovs : List (Occurrence × (Nat × α))) {c : Nat}
    {xs : List (Nat × α)} (hxs : ∀ b ∈ xs.map Prod.fst, b < item.productions)
    (hcount : c + xs.length < 2 ^ 32) :
    writeCoded C fields (codesFrom w j c (xs.map Prod.fst) ++ codes) (valuedFrom j c xs ++ ovs)
      = encodeOccurrences C f w j c xs >>= fun _ => writeCoded C fields codes ovs := by
  induction xs generalizing c with
  | nil => rfl
  | cons x xs ih =>
    rw [List.length_cons] at hcount
    have hvalue : encodeValue C f w j c x = (w.startBranch j c x.1 >>= fun _ =>
        encodeContent C f x) := by
      unfold encodeValue
      cases hkind : f.kind with
      | choice variants => rfl
      | single kind slot =>
        -- a field of one kind has one branch
        have hone := (hof.single hreal kind slot hkind).1
        have hzero : x.1 < item.productions := hxs x.1 (by simp)
        rw [show x.1 = 0 by omega]
        rfl
    have hcontent : contentOf C fields (⟨j, x.1, decide (c = 0)⟩, x) = encodeContent C f x := by
      unfold contentOf
      rw [hf]
    have hrest := ih (c := c + 1) (fun b hb => hxs b (List.mem_cons_of_mem x.1 hb)) (by omega)
    show (w.startBranch j c x.1 >>= fun _ => contentOf C fields (⟨j, x.1, decide (c = 0)⟩, x)
      >>= fun _ => writeCoded C fields (codesFrom w j (c + 1) (xs.map Prod.fst) ++ codes)
        (valuedFrom j (c + 1) xs ++ ovs)) = _
    rw [hcontent, hrest]
    show _ = (encodeValue C f w j (asU32 c) x >>= fun _ => encodeOccurrences C f w j (c + 1) xs)
      >>= _
    rw [show asU32 c = c from Nat.mod_eq_of_lt (by omega), hvalue, bind_assoc, bind_assoc]

/-- The fields of items the emitter takes: repeated items have one code each where anything is
written of them, and their bounds are those of a `u32`. -/
structure Emits (items : List Item) (fields : List Emitted) : Prop where
  length : fields.length = items.length
  each : ∀ (j : Nat) (item : Item) (f : Emitted), items[j]? = some item → fields[j]? = some f →
    f.Of item
  narrow : ∀ (j : Nat) (item : Item) (f : Emitted), items[j]? = some item →
    fields[j]? = some f → f.phantom = false → 1 < item.max → item.productions ≤ 1
  u32 : ∀ item ∈ items, item.max ≤ unbounded

/-- A value with as many occurrences of each field as a reader lets through, and none of a
phantom. -/
structure Fits (items : List Item) (fields : List Emitted) (v : List (List (Nat × α))) : Prop where
  length : v.length = items.length
  lets : ∀ (j : Nat) (item : Item) (xs : List (Nat × α)), items[j]? = some item →
    v[j]? = some xs → item.Lets (xs.map Prod.fst)
  phantom : ∀ (j : Nat) (f : Emitted) (xs : List (Nat × α)), fields[j]? = some f →
    v[j]? = some xs → f.phantom = true → xs = []

section Body

variable {items : List Item} {fields : List Emitted} {contentStart : Nat} {mixed : Bool}
  {v : List (List (Nat × α))}

theorem Emits.get (h : Emits items fields) {j : Nat} {f : Emitted} (hf : fields[j]? = some f) :
    ∃ item, items[j]? = some item ∧ f.Of item ∧ item.max ≤ unbounded := by
  have hlt := (List.getElem?_eq_some_iff.mp hf).1
  rw [h.length] at hlt
  have hitem : items[j]? = some items[j] := List.getElem?_eq_getElem hlt
  exact ⟨_, hitem, h.each j _ f hitem hf, h.u32 _ (List.getElem_mem hlt)⟩

/-- No field has more occurrences than a `u32` counts. -/
theorem Fits.lt (h : Fits items fields v) (hemits : Emits items fields) {j : Nat} {item : Item}
    {xs : List (Nat × α)} (hitem : items[j]? = some item) (hxs : v[j]? = some xs) :
    xs.length < 2 ^ 32 := by
  have hu32 := hemits.u32 item (List.mem_of_getElem? hitem)
  have hlets := h.lets j item xs hitem hxs
  unfold unbounded at hu32
  by_cases hmany : 1 < (xs.map Prod.fst).length
  · have hmax := hlets.max_of_many hmany
    rw [List.length_map] at hmax
    omega
  · rw [List.length_map] at hmany
    omega

/-- The checks of a field pass, and its occurrences are written. -/
theorem encodeField_eq (h : Fits items fields v) (hemits : Emits items fields) {j : Nat}
    {f : Emitted} {xs : List (Nat × α)} (hf : fields[j]? = some f) (hxs : v[j]? = some xs)
    (w : SeqWriter) :
    encodeField C f j w xs = (encodeOccurrences C f w j 0 xs >>= fun _ =>
      pure (writerAfter w j (xs.map Prod.fst))) := by
  obtain ⟨item, hitem, hof, hu32⟩ := hemits.get hf
  have hlets := h.lets j item xs hitem hxs
  have hmin := hlets.min
  have hcount : asU32 xs.length = xs.length := Nat.mod_eq_of_lt (h.lt hemits hitem hxs)
  unfold encodeField
  by_cases hphantom : f.phantom = true
  · rw [if_pos hphantom, h.phantom j f xs hf hxs hphantom]
    rfl
  · rw [if_neg hphantom]
    -- a list is checked against its bounds, a single slot has none to check
    by_cases hmany : f.max > 1
    · rw [if_pos hmany]
      dsimp only
      have hmax := hlets.max
      rw [List.length_map] at hmax hmin
      have hmax' : Nat.max item.max 1 = item.max := Nat.max_eq_left (by
        have heq := hof.max
        omega)
      rw [hcount, if_neg (by
        have heq := hof.max
        have heq' := hof.min
        omega)]
      unfold writerAfter
      rw [List.length_map]
    · rw [if_neg hmany]
      cases xs with
      | nil => rfl
      -- more than one value is more than the item lets through
      | cons x xs =>
        have hnil : xs = [] := by
          by_contra hmore
          have hlen := List.length_pos_of_ne_nil hmore
          have hmax := hlets.max_of_many (by simp; omega)
          rw [List.length_map, List.length_cons] at hmax
          have heq := hof.max
          omega
        subst hnil
        show _ = ((encodeValue C f w j (asU32 0) x >>= fun _ => pure ()) >>= fun _ => _)
        rw [bind_assoc]
        rfl

/-- The fields are written as the codes of a layout's writer, with their contents. -/
theorem encodeFields_eq (h : Fits items fields v) (hemits : Emits items fields) (w : SeqWriter)
    {j : Nat} (hj : j ≤ items.length) :
    (encodeFields C (fields.drop j) j w (v.drop j) >>= SeqWriter.close)
      = writeCoded C fields (allCodes w j (branchesOf (v.drop j))) (valued j (v.drop j)) := by
  have hlen := hemits.length
  have hlen' := h.length
  -- induction on the fields that are left
  induction hn : items.length - j generalizing j w with
  | zero =>
    rw [List.drop_eq_nil_of_le (by omega), List.drop_eq_nil_of_le (by omega)]
    exact (bind_pure (SeqWriter.close w)).symm
  | succ n ih =>
    have hf : fields[j]? = some fields[j] := List.getElem?_eq_getElem (by omega)
    have hxs : v[j]? = some v[j] := List.getElem?_eq_getElem (by omega)
    obtain ⟨item, hitem, hof, hu32⟩ := hemits.get hf
    rw [List.drop_eq_getElem_cons (i := j) (show j < fields.length by omega),
      List.drop_eq_getElem_cons (i := j) (show j < v.length by omega)]
    have hrest := ih (writerAfter w j (v[j].map Prod.fst)) (j := j + 1) (by omega) (by omega)
    show ((encodeField C fields[j] j w v[j] >>= fun w =>
        encodeFields C (fields.drop (j + 1)) (j + 1) w (v.drop (j + 1))) >>= SeqWriter.close)
      = writeCoded C fields (codesFrom w j 0 (v[j].map Prod.fst)
          ++ allCodes (writerAfter w j (v[j].map Prod.fst)) (j + 1) (branchesOf (v.drop (j + 1))))
        (valuedFrom j 0 v[j] ++ valued (j + 1) (v.drop (j + 1)))
    rw [encodeField_eq h hemits hf hxs, bind_assoc, bind_assoc]
    -- a phantom writes nothing, and has nothing
    by_cases hphantom : fields[j].phantom = true
    · rw [h.phantom j _ _ hf hxs hphantom] at hrest ⊢
      exact hrest
    · have hlt := h.lt hemits hitem hxs
      have hreal : fields[j].phantom = false := by simpa using hphantom
      rw [writeCoded_from hf hof hreal _ _ (h.lets j item _ hitem hxs).branches (by omega),
        ← hrest]
      rfl

/-- An occurrence that has been let through is in a branch of its item. -/
theorem Reached.branch_lt {os : List Occurrence} {o : Occurrence} {r : SeqReader} {item : Item}
    (h : Reached items contentStart mixed (os ++ [o]) r) (hitem : items[o.index]? = some item) :
    o.branch < item.productions := by
  have hcounted : ∃ p, Counted items p (os ++ [o]) := by
    generalize hos : os ++ [o] = os' at h
    cases h with
    | new => exact ⟨0, counted_nil⟩
    | behind _ _ hcounted _ _ _ => exact ⟨_, hcounted⟩
  obtain ⟨p, hcounted⟩ := hcounted
  obtain ⟨item', hitem', hlt⟩ := hcounted.branches o (by simp)
  rw [hitem] at hitem'
  cases hitem'
  exact hlt

/-! ## Enough turns

The loop of the reader has turns for every occurrence that could be let through. Each turn lets
one through, so it ends by itself before they are used up. -/

theorem countP_lt_succ (os : List Occurrence) (p : Nat) :
    os.countP (·.index < p + 1) = os.countP (·.index < p) + os.countP (·.index = p) := by
  induction os with
  | nil => rfl
  | cons o os ih =>
    rw [List.countP_cons, List.countP_cons, List.countP_cons, ih]
    simp only [decide_eq_true_eq]
    split <;> split <;> split <;> omega

/-- A reader lets no more occurrences through than the loop has turns for. -/
theorem Reached.lt_turns {os : List Occurrence} {r : SeqReader}
    (h : Reached items contentStart mixed os r) :
    os.length < turns (shapeOf items contentStart mixed) := by
  have hmax : (shapeOf items contentStart mixed).max = items.map Item.max := rfl
  cases h with
  | new => exact Nat.succ_pos _
  | @behind _ j c item hj _ hcounted _ _ _ =>
    have hcounts : ∀ p, p ≤ items.length → os.countP (·.index < p)
        ≤ ((items.take p).map fun item => Nat.max item.max 1).sum := by
      intro p hp
      induction p with
      | zero => simp
      | succ p ih =>
        have hitem : items[p]? = some items[p] := List.getElem?_eq_getElem (by omega)
        have hmost := hcounted.most p _ hitem
        have hle := ih (by omega)
        rw [countP_lt_succ, List.take_add_one, hitem, List.map_append, List.sum_append]
        simp only [Option.toList_some, List.map_cons, List.map_nil, List.sum_cons, List.sum_nil]
        omega
    have hall : os.countP (·.index < items.length) = os.length := by
      rw [List.countP_eq_length]
      intro o ho
      have hin := hcounted.inside o ho
      have hlt := (List.getElem?_eq_some_iff.mp hj).1
      exact decide_eq_true (by omega)
    have hle := hcounts items.length (Nat.le_refl _)
    rw [hall, List.take_length] at hle
    unfold turns
    rw [hmax, List.map_map]
    exact Nat.lt_succ_of_le hle

/-- The turns of the loop are never used up: with one more it does the same. -/
theorem decodeLoop_enough {os : List Occurrence} {r : SeqReader} {n : Nat}
    (h : Reached items contentStart mixed os r)
    (hn : turns (shapeOf items contentStart mixed) ≤ os.length + n)
    (acc : List (List (Nat × α))) (d : Decoder) :
    decodeLoop C fields n r acc d = decodeLoop C fields (n + 1) r acc d := by
  induction n generalizing os r acc d with
  | zero =>
    have hlt := h.lt_turns
    omega
  | succ n ih =>
    show EStateM.bind r.next _ d = EStateM.bind r.next _ d
    unfold EStateM.bind
    cases hnext : r.next d with
    | error e d₁ => rfl
    | ok said d₁ =>
      obtain ⟨said, r'⟩ := said
      cases said with
      | ended => rfl
      | item o =>
        obtain ⟨code, -, hstep⟩ := SeqReader.step_of_next hnext
        show EStateM.bind (decodeField C fields o) _ d₁ = EStateM.bind (decodeField C fields o) _ d₁
        unfold EStateM.bind
        cases decodeField C fields o d₁ with
        | error e d₂ => rfl
        | ok x d₂ =>
          refine ih (h.step hstep) ?_ _ d₂
          rw [List.length_append, List.length_singleton]
          omega

/-! ## The checks behind the loop

What was too few for the reader to notice is noticed here, field by field. -/

theorem checkField_cases (f : Emitted) (xs : List (Nat × α)) :
    checkField f xs = pure () ∨ checkField f xs = throw .missingElement := by
  unfold checkField
  split
  · exact .inl rfl
  · split
    · split
      · exact .inr rfl
      · exact .inl rfl
    · split
      · exact .inr rfl
      · exact .inl rfl

/-- The checks pass where each of them does. -/
theorem checkFields_eq {fs : List Emitted} {w : List (List (Nat × α))}
    (h : ∀ (i : Nat) (f : Emitted) (xs : List (Nat × α)), fs[i]? = some f → w[i]? = some xs →
      checkField f xs = pure ()) : checkFields fs w = pure () := by
  induction fs generalizing w with
  | nil => rfl
  | cons f fs ih =>
    cases w with
    | nil => rfl
    | cons xs w =>
      unfold checkFields
      rw [h 0 f xs rfl rfl, ih fun i f' xs' hf hxs => h (i + 1) f' xs' hf hxs]
      rfl

/-- Where the checks pass, each of them does. -/
theorem checkFields_ok {fs : List Emitted} {w : List (List (Nat × α))} {d d' : Decoder} {u : Unit}
    (h : checkFields fs w d = .ok u d') :
    d' = d ∧ ∀ (i : Nat) (f : Emitted) (xs : List (Nat × α)), fs[i]? = some f →
      w[i]? = some xs → checkField f xs = pure () := by
  induction fs generalizing w with
  | nil =>
    cases h
    exact ⟨rfl, fun i f xs hf => by cases hf⟩
  | cons f fs ih =>
    cases w with
    | nil =>
      cases h
      exact ⟨rfl, fun i f' xs' _ hxs => by cases hxs⟩
    | cons xs w =>
      rcases checkField_cases f xs with hpass | hthrow
      · unfold checkFields at h
        rw [hpass] at h
        obtain ⟨hd, hrest⟩ := ih h
        refine ⟨hd, fun i f' xs' hf hxs => ?_⟩
        cases i with
        | zero =>
          cases hf
          cases hxs
          exact hpass
        | succ i => exact hrest i f' xs' hf hxs
      · unfold checkFields at h
        rw [hthrow] at h
        cases h

/-- A field with as many occurrences as it needs passes. -/
theorem checkField_of_fits (h : Fits items fields v) (hemits : Emits items fields) {j : Nat}
    {f : Emitted} {xs : List (Nat × α)} (hf : fields[j]? = some f) (hxs : v[j]? = some xs) :
    checkField f xs = pure () := by
  obtain ⟨item, hitem, hof, -⟩ := hemits.get hf
  have hmin := (h.lets j item xs hitem hxs).min
  have heq := hof.min
  have hcount : asU32 xs.length = xs.length := Nat.mod_eq_of_lt (h.lt hemits hitem hxs)
  rw [List.length_map] at hmin
  unfold checkField
  split
  · rfl
  · split
    · rw [hcount, if_neg (by omega)]
    · rw [if_neg]
      intro hmissing
      have hnone := congrArg List.length hmissing.2
      rw [List.length_nil] at hnone
      omega

/-! ## What fits is read back

The parts put together: the counts pass the checks of the encoder, the codes are those of a run
of the reader, what it stores is the value, and that passes the checks of the decoder. -/

theorem mem_valuedFrom {j c : Nat} {xs : List (Nat × α)} {ov : Occurrence × (Nat × α)}
    (h : ov ∈ valuedFrom j c xs) : ov.1.index = j ∧ ov.2 ∈ xs ∧ ov.2.1 = ov.1.branch := by
  induction xs generalizing c with
  | nil => cases h
  | cons x xs ih =>
    rcases List.mem_cons.mp h with heq | hmem
    · rw [heq]
      exact ⟨rfl, List.mem_cons_self, rfl⟩
    · obtain ⟨hindex, hx, hbranch⟩ := ih hmem
      exact ⟨hindex, List.mem_cons_of_mem x hx, hbranch⟩

theorem mem_valued {j : Nat} {w : List (List (Nat × α))} {ov : Occurrence × (Nat × α)}
    (h : ov ∈ valued j w) :
    ∃ i xs, w[i]? = some xs ∧ ov.1.index = j + i ∧ ov.2 ∈ xs ∧ ov.2.1 = ov.1.branch := by
  induction w generalizing j with
  | nil => cases h
  | cons xs w ih =>
    rcases List.mem_append.mp h with hmem | hmem
    · obtain ⟨hindex, hx, hbranch⟩ := mem_valuedFrom hmem
      exact ⟨0, xs, rfl, hindex, hx, hbranch⟩
    · obtain ⟨i, xs', hxs, hindex, hx, hbranch⟩ := ih hmem
      exact ⟨i + 1, xs', hxs, by omega, hx, hbranch⟩

/-- What is stored of a value that fits is the value. -/
theorem storeAll_valued (h : Fits items fields v) (hemits : Emits items fields) :
    storeAll fields (fields.map fun _ => []) (valued 0 v) = v := by
  have hlen := hemits.length
  have hlen' := h.length
  refine List.ext_getElem? fun j => ?_
  by_cases hj : j < items.length
  · have hf : fields[j]? = some fields[j] := List.getElem?_eq_getElem (by omega)
    have hxs : v[j]? = some v[j] := List.getElem?_eq_getElem (by omega)
    obtain ⟨item, hitem, hof, -⟩ := hemits.get hf
    have hvalues := filter_valued j 0 v
    rw [if_pos (Nat.zero_le j), Nat.sub_zero, List.getD, hxs, Option.getD_some] at hvalues
    have hacc : (fields.map fun _ => ([] : List (Nat × α)))[j]? = some [] := by
      rw [List.getElem?_map, hf]
      rfl
    rw [get_storeAll hf hacc, hvalues, hxs]
    · rfl
    · intro hone
      have hcount := congrArg List.length hvalues
      rw [List.length_map, ← List.countP_eq_length_filter] at hcount
      have hmax := (h.lets j item _ hitem hxs).max
      have hmost : Nat.max item.max 1 = 1 := Nat.max_eq_right (by
        have heq := hof.max
        omega)
      rw [List.length_map, hmost] at hmax
      rw [List.length_nil, hcount]
      omega
  · rw [List.getElem?_eq_none (by rw [length_storeAll, List.length_map]; omega),
      List.getElem?_eq_none (by omega)]

/-- **What fits is read back**, from wherever a struct may stand, if the content of its occurrences
is. -/
theorem carries_body (h : Fits items fields v) (hemits : Emits items fields) (hk : k < maxDepth)
    (hholds : ∀ (j : Nat) (f : Emitted) (xs : List (Nat × α)) (x : Nat × α), fields[j]? = some f →
      v[j]? = some xs → x ∈ xs → f.Holds C (k + 1) x) :
    Carries k k (encodeBody C (shapeOf items contentStart mixed) fields v)
      (decodeBody C (shapeOf items contentStart mixed) fields) v := by
  have hlen := hemits.length
  have hlen' := h.length
  have hlets : List.Forall₂ Item.Lets (items.drop 0) (branchesOf v) := by
    refine List.forall₂_iff_get.mpr ⟨?_, fun i hi hi' => ?_⟩
    · rw [List.drop_zero, branchesOf, List.length_map, hlen']
    · rw [List.drop_zero] at hi
      have hxs : v[i]? = some v[i] := List.getElem?_eq_getElem (by omega)
      have hitem : items[i]? = some items[i] := List.getElem?_eq_getElem hi
      have hitem' := h.lets i _ _ hitem hxs
      simpa [branchesOf] using hitem'
  -- nothing occurs of a phantom, so what occurs again has one code
  have hsingle : ∀ (i : Nat) (item : Item) (bs : List Nat), items[0 + i]? = some item →
      (branchesOf v)[i]? = some bs → 0 < bs.length → 1 < item.max → item.productions ≤ 1 := by
    intro i item bs hitem hbs hpresent
    rw [Nat.zero_add] at hitem
    obtain ⟨xs, hxs, rfl⟩ : ∃ xs, v[i]? = some xs ∧ xs.map Prod.fst = bs := by
      simpa [branchesOf] using hbs
    have hi := (List.getElem?_eq_some_iff.mp hitem).1
    have hf : fields[i]? = some fields[i] := List.getElem?_eq_getElem (by omega)
    refine hemits.narrow i item _ hitem hf ?_
    by_contra hphantom
    rw [h.phantom i _ xs hf hxs (by simpa using hphantom)] at hpresent
    cases hpresent
  obtain ⟨codes, r₁, code, hcodes, htakes, hlt, hstep⟩ :=
    (paired_new items contentStart mixed).takes_all (Nat.zero_le 0)
      (fun j item _ hj => absurd hj (Nat.not_lt_zero j)) hlets hsingle
  rw [← map_fst_valued] at htakes
  -- the decoder has turns enough for what the encoder writes
  have hturns := (Reached.new.takes htakes).lt_turns
  rw [List.nil_append, List.length_map] at hturns
  have hcontent : Carries (k + 1) (k + 1)
      (writeCoded C fields (codes ++ [(code, r₁.width)]) (valued 0 v))
      (decodeLoop C fields (turns (shapeOf items contentStart mixed))
        (.new (shapeOf items contentStart mixed)) (fields.map fun _ => []))
      (storeAll fields (fields.map fun _ => []) (valued 0 v)) := carries_takes htakes hlt hstep
    (fun ov hov => by
      obtain ⟨i, xs, hxs, hindex, hx, hbranch⟩ := mem_valued hov
      rw [Nat.zero_add] at hindex
      have hi := (List.getElem?_eq_some_iff.mp hxs).1
      have hf : fields[i]? = some fields[i] := List.getElem?_eq_getElem (by omega)
      refine ⟨_, by rw [hindex]; exact hf, ?_, hbranch, hholds i _ xs _ hf hxs hx⟩
      -- nothing is written for a field that holds no value
      by_contra hphantom
      rw [h.phantom i _ xs hf hxs (by simpa using hphantom)] at hx
      cases hx)
    hturns (fields.map fun _ => [])
  rw [storeAll_valued h hemits, ← hcodes] at hcontent
  have hfields := encodeFields_eq (C := C) h hemits (.new (shapeOf items contentStart mixed))
    (Nat.zero_le items.length)
  rw [List.drop_zero, List.drop_zero] at hfields
  rw [← hfields] at hcontent
  unfold encodeBody decodeBody
  refine (carries_enter hk).bind ?_
  rw [← bind_assoc]
  refine hcontent.bind (carries_leave.map ?_)
  rw [checkFields_eq fun i f xs hf hxs => checkField_of_fits h hemits hf hxs]
  rfl

end Body

end Iso15118.Codegen
