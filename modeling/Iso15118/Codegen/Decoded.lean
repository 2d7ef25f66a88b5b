import Iso15118.Codegen.Bodies
import Iso15118.Lib.Check

/-!
# What generated decoders let through

A decoder takes from its reader the order of the fields and how often each may occur, and looks
itself at what is missing; an encoder counts what it is given. The two come to the same:
what is decoded fits (**`fits_of_decodeBody`**), so that it is encoded and decoded again.

What a reader lets through is more than the schema permits of a field that must not occur.
**`decoded_iff`** says that this is all.

What comes out of a decoder is compared with what the encoder of the same field asks for. The
decoder's loop is followed occurrence by occurrence, with the reader's own bounds on each item; the
checks behind the loop settle the lower bounds. One direction is left over, an item whose greatest
number is zero: the reader has a code for it and the encoder refuses it, and a value with such an
occurrence is decoded and cannot be written.
-/

namespace Iso15118.Codegen

open Iso15118.Lib Iso15118.Exi

variable {α : Type} {C : Slot → FieldCodec α} {k : Nat}

/-! ## The content of an occurrence

What is decoded of a content was read by one of the codecs, and these are faithful. How deep the
decoder is changes on the way and is the same at the end, which the limit on depth is kept with. -/

/-- What reads the bit stream only is as deep as it was. -/
theorem depth_prim {β : Type} {m : EStateM ExiError BitReader β} {d d' : Decoder} {b : β}
    (h : Decoder.prim m d = .ok b d') : d'.depth = d.depth := by
  unfold Decoder.prim at h
  split at h
  · cases h
    rfl
  · cases h

theorem depth_expectEvent {code width : Nat} {d d' : Decoder} {u : Unit}
    (h : Decoder.expectEvent code width d = .ok u d') : d'.depth = d.depth := by
  obtain ⟨code', d₁, hevent, hsame⟩ := bind_ok.mp h
  split at hsame
  · cases hsame
    exact depth_prim hevent
  · cases hsame

theorem depth_next {r r' : SeqReader} {d d' : Decoder} {said : Step}
    (h : r.next d = .ok (said, r') d') : d'.depth = d.depth := by
  obtain ⟨code, d₁, hevent, hsaid⟩ := bind_ok.mp h
  cases hstep : r.step code with
  | error e =>
    rw [hstep] at hsaid
    cases hsaid
  | ok next =>
    rw [hstep] at hsaid
    cases hsaid
    exact depth_prim hevent

theorem depth_decodeKind {kind : Kind} {isAttribute : Bool} {slot : Slot} {d d' : Decoder} {v : α}
    (h : decodeKind C kind isAttribute slot d = .ok v d') : d'.depth = d.depth := by
  cases kind with
  | struct => exact (C slot).keeps d v d' h
  | scalar =>
    cases isAttribute with
    | true => exact (C slot).keeps d v d' h
    | false =>
      obtain ⟨u, d₁, hstart, h⟩ := bind_ok.mp h
      obtain ⟨v', d₂, hread, h⟩ := bind_ok.mp h
      obtain ⟨u', d₃, hend, hpure⟩ := bind_ok.mp h
      cases hpure
      have hd₁ := depth_expectEvent hstart
      have hd₂ := (C slot).keeps d₁ v d₂ hread
      have hd₃ := depth_expectEvent hend
      omega
  | unsupported => cases h

/-- What is decoded of an occurrence was decoded as some kind, in the branch the reader has named
where there is more than one. -/
theorem decodeContent_cases {f : Emitted} {branch : Nat} {d d' : Decoder} {x : Nat × α}
    (h : decodeContent C f branch d = .ok x d') :
    (∃ kind slot, f.kind = .single kind slot ∧ x.1 = 0
        ∧ decodeKind C kind f.isAttribute slot d = .ok x.2 d')
      ∨ ∃ variants kind slot, f.kind = .choice variants ∧ variants[branch]? = some (kind, slot)
        ∧ x.1 = branch ∧ decodeKind C kind false slot d = .ok x.2 d' := by
  unfold decodeContent at h
  cases hkind : f.kind with
  | single kind slot =>
    rw [hkind] at h
    obtain ⟨v, d₁, hread, hpure⟩ := bind_ok.mp h
    cases hpure
    exact .inl ⟨kind, slot, rfl, rfl, hread⟩
  | choice variants =>
    rw [hkind] at h
    dsimp only at h
    cases hvariant : variants[branch]? with
    | none =>
      rw [hvariant] at h
      cases h
    | some variant =>
      obtain ⟨kind, slot⟩ := variant
      rw [hvariant] at h
      obtain ⟨v, d₁, hread, hpure⟩ := bind_ok.mp h
      cases hpure
      exact .inr ⟨variants, kind, slot, rfl, hvariant, rfl, hread⟩

/-- An arm that returns is that of a field which is no phantom. -/
theorem decodeField_cases {fields : List Emitted} {o : Occurrence} {d d' : Decoder} {x : Nat × α}
    (h : decodeField C fields o d = .ok x d') :
    ∃ f, fields[o.index]? = some f ∧ f.phantom = false
      ∧ decodeContent C f o.branch d = .ok x d' := by
  unfold decodeField at h
  cases hf : fields[o.index]? with
  | none =>
    rw [hf] at h
    cases h
  | some f =>
    rw [hf] at h
    dsimp only at h
    by_cases hphantom : f.phantom = true
    · rw [if_pos hphantom] at h
      cases h
    · rw [if_neg hphantom] at h
      exact ⟨f, rfl, by simpa using hphantom, h⟩

theorem depth_decodeField {fields : List Emitted} {o : Occurrence} {d d' : Decoder} {x : Nat × α}
    (h : decodeField C fields o d = .ok x d') : d'.depth = d.depth := by
  obtain ⟨f, -, -, hcontent⟩ := decodeField_cases h
  rcases decodeContent_cases hcontent with ⟨kind, slot, -, -, hread⟩
    | ⟨variants, kind, slot, -, -, -, hread⟩
  · exact depth_decodeKind hread
  · exact depth_decodeKind hread

/-- What is read as a field's content is within its type, and is carried. -/
theorem decodeKind_ok (hC : ∀ slot, (C slot).Faithful k) {kind : Kind} {isAttribute : Bool}
    {slot : Slot} {d d' : Decoder} {v : α} (hd : d.depth = k)
    (h : decodeKind C kind isAttribute slot d = .ok v d') :
    (C slot).Within v
      ∧ Carries k k (encodeKind C kind isAttribute slot v) (decodeKind C kind isAttribute slot)
        v := by
  have hread : kind ≠ .unsupported ∧ ∃ d₁ d₂, d₁.depth = k ∧ (C slot).read d₁ = .ok v d₂ := by
    cases kind with
    | struct => exact ⟨by decide, d, d', hd, h⟩
    | scalar =>
      refine ⟨by decide, ?_⟩
      cases isAttribute with
      | true => exact ⟨d, d', hd, h⟩
      | false =>
        obtain ⟨u, d₁, hstart, h⟩ := bind_ok.mp h
        obtain ⟨v', d₂, hread, h⟩ := bind_ok.mp h
        obtain ⟨u', d₃, hend, hpure⟩ := bind_ok.mp h
        cases hpure
        exact ⟨d₁, d₂, (depth_expectEvent hstart).trans hd, hread⟩
    | unsupported => cases h
  obtain ⟨hkind, d₁, d₂, hd₁, hread⟩ := hread
  obtain ⟨hwithin, hcarries⟩ := hC slot d₁ v d₂ hd₁ hread
  exact ⟨hwithin, carries_kind hcarries hkind⟩

/-- What is decoded of an occurrence is in the branch the reader has named, and holds. -/
theorem decodeContent_ok (hC : ∀ slot, (C slot).Faithful k) {f : Emitted} {item : Item}
    (hf : f.Of item) (hreal : f.phantom = false) {branch : Nat}
    (hbranch : branch < item.productions) {d d' : Decoder} {x : Nat × α} (hd : d.depth = k)
    (h : decodeContent C f branch d = .ok x d') : x.1 = branch ∧ f.Holds C k x := by
  obtain ⟨b, v⟩ := x
  -- a plain field has one branch, a choice has a variant for each
  rcases decodeContent_cases h with ⟨kind, slot, hkind, rfl, hread⟩
    | ⟨variants, kind, slot, hkind, hvariant, rfl, hread⟩
  · obtain ⟨hwithin, hcarries⟩ := decodeKind_ok hC hd hread
    have hone := (hf.single hreal kind slot hkind).1
    refine ⟨by omega, ⟨?_, ?_⟩⟩
    · rintro kind' slot' (heq | ⟨variants, heq, -⟩)
      · rw [hkind] at heq
        cases heq
        exact hwithin
      · rw [hkind] at heq
        cases heq
    · unfold encodeContent decodeContent
      rw [hkind]
      exact hcarries.map rfl
  · obtain ⟨hwithin, hcarries⟩ := decodeKind_ok hC hd hread
    refine ⟨rfl, ⟨?_, ?_⟩⟩
    · rintro kind' slot' (heq | ⟨variants', heq, hvariant'⟩)
      · rw [hkind] at heq
        cases heq
      · rw [hkind] at heq
        cases heq
        rw [hvariant] at hvariant'
        cases hvariant'
        exact hwithin
    · unfold encodeContent decodeContent
      rw [hkind]
      dsimp only
      rw [hvariant]
      exact hcarries.map rfl

section Body

variable {items : List Item} {fields : List Emitted} {contentStart : Nat} {mixed : Bool}
  {v : List (List (Nat × α))}

/-! ## What is decoded fits

The loop is followed turn by turn: what it has stored are the occurrences that the reader has let
through. When it ends, the reader has left no item short that it began, and the checks behind the
loop see to the others. -/

/-- An occurrence that has been decoded: in a field of its own, in the branch the reader has named,
and its content holds. -/
def Decoded (C : Slot → FieldCodec α) (k : Nat) (fields : List Emitted)
    (ov : Occurrence × (Nat × α)) : Prop :=
  ∃ f, fields[ov.1.index]? = some f ∧ f.phantom = false ∧ ov.2.1 = ov.1.branch ∧ f.Holds C k ov.2

/-- A loop that comes to its end has decoded the occurrences a reader has let through. -/
theorem decodeLoop_ok (hC : ∀ slot, (C slot).Faithful k) (hemits : Emits items fields) {n : Nat}
    {os : List Occurrence} {r : SeqReader} (hreached : Reached items contentStart mixed os r)
    {acc out : List (List (Nat × α))} {d d' : Decoder} (hd : d.depth = k)
    (h : decodeLoop C fields n r acc d = .ok out d') :
    ∃ ovs r₁ r' code, Reached items contentStart mixed (os ++ ovs.map Prod.fst) r₁
      ∧ r₁.step code = .ok (.ended, r') ∧ out = storeAll fields acc ovs
      ∧ ∀ ov ∈ ovs, Decoded C k fields ov := by
  -- induction on the turns: each occurrence was let through by the reader it met
  induction n generalizing os r acc d with
  | zero => cases h
  | succ n ih =>
    obtain ⟨⟨said, r'⟩, d₁, hnext, h⟩ := bind_ok.mp h
    obtain ⟨code, -, hstep⟩ := SeqReader.step_of_next hnext
    have hd₁ : d₁.depth = k := (depth_next hnext).trans hd
    cases said with
    | ended =>
      cases h
      exact ⟨[], r, r', code, by rw [List.map_nil, List.append_nil]; exact hreached, hstep, rfl,
        fun ov hov => by cases hov⟩
    | item o =>
      obtain ⟨x, d₂, hfield, h⟩ := bind_ok.mp h
      have hreached' := hreached.step hstep
      have hdecoded : Decoded C k fields (o, x) := by
        obtain ⟨f, hf, hreal, hcontent⟩ := decodeField_cases hfield
        obtain ⟨item, hitem, hof, -⟩ := hemits.get hf
        obtain ⟨hx, hholds⟩ :=
          decodeContent_ok hC hof hreal (hreached'.branch_lt hitem) hd₁ hcontent
        exact ⟨f, hf, hreal, hx, hholds⟩
      obtain ⟨ovs, r₁, r'', code', hreached₁, hended, hout, hall⟩ :=
        ih hreached' ((depth_decodeField hfield).trans hd₁) h
      rw [List.append_assoc] at hreached₁
      exact ⟨(o, x) :: ovs, r₁, r'', code', hreached₁, hended, hout,
        List.forall_mem_cons.mpr ⟨hdecoded, hall⟩⟩

theorem depth_decodeLoop {n : Nat} {r : SeqReader} {acc out : List (List (Nat × α))}
    {d d' : Decoder} (h : decodeLoop C fields n r acc d = .ok out d') : d'.depth = d.depth := by
  induction n generalizing r acc d with
  | zero => cases h
  | succ n ih =>
    obtain ⟨⟨said, r'⟩, d₁, hnext, h⟩ := bind_ok.mp h
    have hd₁ := depth_next hnext
    cases said with
    | ended =>
      cases h
      exact hd₁
    | item o =>
      obtain ⟨x, d₂, hfield, h⟩ := bind_ok.mp h
      have hd₂ := depth_decodeField hfield
      have hd' := ih h
      omega

/-- A struct that is decoded is not too deep, and its fields pass their checks. -/
theorem decodeBody_cases {shape : Shape} {d d' : Decoder}
    (h : decodeBody C shape fields d = .ok v d') :
    d.depth < maxDepth ∧ d'.depth = d.depth
      ∧ (∃ d₁ d₂, d₁.depth = d.depth + 1
        ∧ decodeLoop C fields (turns shape) (.new shape) (fields.map fun _ => []) d₁ = .ok v d₂)
      ∧ ∀ (i : Nat) (f : Emitted) (xs : List (Nat × α)), fields[i]? = some f → v[i]? = some xs →
        checkField f xs = pure () := by
  obtain ⟨u, d₁, henter, h⟩ := bind_ok.mp h
  obtain ⟨v', d₂, hloop, h⟩ := bind_ok.mp h
  obtain ⟨u', d₃, hleave, h⟩ := bind_ok.mp h
  obtain ⟨u'', d₄, hcheck, hpure⟩ := bind_ok.mp h
  cases hpure
  obtain ⟨heq, hpass⟩ := checkFields_ok hcheck
  subst heq
  obtain ⟨u₀, d₀, hmodify, henter⟩ := bind_ok.mp henter
  cases hmodify
  obtain ⟨d₀', d₀'', hget, henter⟩ := bind_ok.mp henter
  cases hget
  split at henter
  · cases henter
  · next hshallow =>
    cases henter
    have hdeeper : ¬ deeper d.depth > maxDepth := hshallow
    -- the depth saturates at `u16::MAX`, far above the limit
    have hdepth : deeper d.depth = d.depth + 1 := by
      unfold deeper at hdeeper ⊢
      rcases Nat.le_total (d.depth + 1) 65535 with hle | hge
      · exact Nat.min_eq_left hle
      · have heq : Nat.min (d.depth + 1) 65535 = 65535 := Nat.min_eq_right hge
        rw [heq] at hdeeper
        exact absurd (by decide) hdeeper
    rw [hdepth] at hdeeper
    have hloop' := depth_decodeLoop hloop
    have hd₂ : d₂.depth = d.depth + 1 := hloop'.trans hdepth
    cases hleave
    refine ⟨by omega, ?_, ⟨_, d₂, hdepth, hloop⟩, hpass⟩
    show d₂.depth - 1 = d.depth
    omega

/-- Where a field passes its check without an occurrence, it may be without one. -/
theorem min_of_checkField {f : Emitted} {xs : List (Nat × α)} (h : checkField f xs = pure ())
    (hreal : f.phantom = false) (hnone : xs = []) : f.min = 0 := by
  by_contra hmin
  have hthrow : checkField f xs = throw .missingElement := by
    unfold checkField
    rw [hnone, if_neg (by rw [hreal]; decide)]
    split
    · exact if_pos ⟨Nat.pos_of_ne_zero hmin, Nat.pos_of_ne_zero hmin⟩
    · exact if_pos ⟨Nat.pos_of_ne_zero hmin, rfl⟩
  rw [hthrow] at h
  have happly := congrFun h (Decoder.new [])
  cases happly

/-- **What is decoded fits**, its occurrences hold, and it has got past everything required. -/
theorem fits_of_decodeBody (hC : ∀ slot, (C slot).Faithful (k + 1)) (hemits : Emits items fields)
    {d d' : Decoder} (hd : d.depth = k)
    (h : decodeBody C (shapeOf items contentStart mixed) fields d = .ok v d') :
    k < maxDepth ∧ Fits items fields v
      ∧ (∀ (j : Nat) (f : Emitted) (xs : List (Nat × α)) (x : Nat × α), fields[j]? = some f →
        v[j]? = some xs → x ∈ xs → f.Holds C (k + 1) x)
      ∧ Clear items items.length := by
  -- what the loop has let through is a run of the reader, and its occurrences are what is stored
  obtain ⟨hdepth, -, ⟨d₁, d₂, hd₁, hloop⟩, hpass⟩ := decodeBody_cases h
  obtain ⟨ovs, r, r', code, hreached, hended, hv, hall⟩ :=
    decodeLoop_ok hC hemits Reached.new (by omega) hloop
  rw [List.nil_append] at hreached
  -- the end is not read before the last item has what it needs
  have henough : r.belowMin = false := by
    rcases SeqReader.step_cases hended with ⟨-, -, heq, -⟩ | ⟨henough, -⟩ | ⟨j, b, henough, -⟩
    · cases heq
    · exact henough
    · exact henough
  obtain ⟨-, hpos, hcounted, hsettled⟩ := hreached.settled henough
  have hlen := hemits.length
  have hlen' : v.length = items.length := by
    rw [hv, length_storeAll, List.length_map, hlen]
  -- a field holds the occurrences of its item
  have hget : ∀ (j : Nat) (f : Emitted) (item : Item), fields[j]? = some f →
      items[j]? = some item → f.Of item →
      v[j]? = some ((ovs.filter (·.1.index = j)).map Prod.snd) := by
    intro j f item hf hitem hof
    have hacc : (fields.map fun _ => ([] : List (Nat × α)))[j]? = some [] := by
      rw [List.getElem?_map, hf]
      rfl
    rw [hv, get_storeAll hf hacc]
    · rfl
    · intro hone
      have hmost := hcounted.most j item hitem
      have hsingle : Nat.max item.max 1 = 1 := Nat.max_eq_right (by
        have heq := hof.max
        omega)
      rw [hsingle, List.countP_map] at hmost
      rw [List.length_nil, Nat.zero_add]
      exact hmost
  -- how many there are is how often the item has occurred
  have hcount : ∀ j, ((ovs.filter (·.1.index = j)).map Prod.snd).length
      = (ovs.map Prod.fst).countP (·.index = j) := by
    intro j
    rw [List.length_map, ← List.countP_eq_length_filter, List.countP_map]
    rfl
  -- whatever is in a field was decoded, in an occurrence of its item
  have hmem : ∀ (j : Nat) (f : Emitted) (xs : List (Nat × α)) (x : Nat × α),
      fields[j]? = some f → v[j]? = some xs → x ∈ xs →
      ∃ ov ∈ ovs, ov.1.index = j ∧ ov.2 = x := by
    intro j f xs x hf hxs hx
    obtain ⟨item, hitem, hof, -⟩ := hemits.get hf
    rw [hget j f item hf hitem hof] at hxs
    cases hxs
    obtain ⟨ov, hov, heq⟩ := List.mem_map.mp hx
    obtain ⟨hov, hindex⟩ := List.mem_filter.mp hov
    exact ⟨ov, hov, of_decide_eq_true hindex, heq⟩
  have hfits : Fits items fields v := by
    refine ⟨hlen', fun j item xs hitem hxs => ?_, fun j f xs hf hxs hphantom => ?_⟩
    · have hlt := (List.getElem?_eq_some_iff.mp hitem).1
      have hf : fields[j]? = some fields[j] := List.getElem?_eq_getElem (by omega)
      have hof := hemits.each j item _ hitem hf
      have hxs' := hget j _ item hf hitem hof
      rw [hxs] at hxs'
      cases hxs'
      refine ⟨?_, ?_, fun b hb => ?_⟩
      -- enough of each: past the end of the run a field was looked at by the checks behind the loop
      · rw [List.length_map, hcount]
        by_cases hpast : j < r.pos
        · exact hsettled j item hpast hitem
        · have hnone := countP_of_inside hcounted.inside (Nat.not_lt.mp hpast)
          by_cases hphantom : fields[j].phantom = true
          · rw [hof.optional hphantom]
            exact Nat.zero_le _
          · have hnil := List.eq_nil_of_length_eq_zero ((hcount j).trans hnone)
            have hmin := min_of_checkField (hpass j _ _ hf hxs) (by simpa using hphantom) hnil
            have heq := hof.min
            omega
      -- no more than the reader lets through
      · rw [List.length_map, hcount]
        exact hcounted.most j item hitem
      -- in branches there are
      · obtain ⟨x, hx, heq⟩ := List.mem_map.mp hb
        obtain ⟨ov, hov, hindex, hsame⟩ := hmem j _ _ x hf hxs hx
        obtain ⟨f, -, -, hbranch, -⟩ := hall ov hov
        obtain ⟨item', hitem', hlt'⟩ := hcounted.branches ov.1 (List.mem_map_of_mem hov)
        rw [hindex, hitem] at hitem'
        cases hitem'
        rw [← heq, ← hsame, hbranch]
        exact hlt'
    -- nothing is stored in a phantom, for an occurrence of one is refused
    · by_contra hsome
      obtain ⟨x, hx⟩ := List.exists_mem_of_ne_nil xs hsome
      obtain ⟨ov, hov, hindex, -⟩ := hmem j f xs x hf hxs hx
      obtain ⟨f', hf', hreal, -⟩ := hall ov hov
      rw [hindex, hf] at hf'
      cases hf'
      rw [hphantom] at hreal
      cases hreal
  refine ⟨by omega, hfits, fun j f xs x hf hxs hx => ?_, fun j item hj hitem hrequired => ?_⟩
  · obtain ⟨ov, hov, hindex, hsame⟩ := hmem j f xs x hf hxs hx
    obtain ⟨f', hf', -, -, hholds⟩ := hall ov hov
    rw [hindex, hf] at hf'
    cases hf'
    rw [← hsame]
    exact hholds
  -- a required item has occurred, so it can be got past
  · have hxs : v[j]? = some v[j] := List.getElem?_eq_getElem (by omega)
    have hmin := (hfits.lets j item _ hitem hxs).min
    have hf : fields[j]? = some fields[j] := List.getElem?_eq_getElem (by omega)
    have hxs' := hget j _ item hf hitem (hemits.each j item _ hitem hf)
    rw [hxs] at hxs'
    have hsame := Option.some.inj hxs'
    rw [List.length_map, hsame, hcount] at hmin
    exact hcounted.passable hitem hrequired hmin

end Body

/-! ## The codec of a struct

A struct is itself the content of a field of another, so faithfulness goes from the fields to the
struct. What stands in its way is an item that must not occur: the reader lets one of it through
and the encoder refuses it. -/

/-- As many occurrences of every item as it may have. -/
structure Bounded (items : List Item) (v : List (List (Nat × α))) : Prop where
  length : v.length = items.length
  bounds : ∀ (j : Nat) (item : Item) (xs : List (Nat × α)), items[j]? = some item →
    v[j]? = some xs → item.min ≤ xs.length ∧ xs.length ≤ item.max

/-- A struct as the content of a field: within its bounds with all that is in it. -/
def structCodec (C : Slot → FieldCodec α) (items : List Item) (shape : Shape)
    (fields : List Emitted) : FieldCodec (List (List (Nat × α))) where
  write := encodeBody C shape fields
  read := decodeBody C shape fields
  Within v := Bounded items v ∧ ∀ (j : Nat) (f : Emitted) (xs : List (Nat × α)) (x : Nat × α)
    (kind : Kind) (slot : Slot), fields[j]? = some f → v[j]? = some xs → x ∈ xs →
    (f.kind = .single kind slot
      ∨ ∃ variants, f.kind = .choice variants ∧ variants[x.1]? = some (kind, slot)) →
    (C slot).Within x.2
  keeps _ _ _ h := (decodeBody_cases h).2.1

/-- A codec of nothing. -/
def unitCodec : FieldCodec Unit where
  write _ := pure ()
  read := pure ()
  Within _ := True
  keeps d v d' h := by
    cases h
    rfl

theorem faithful_unit (k : Nat) : unitCodec.Faithful k :=
  fun _ _ _ _ _ => ⟨trivial, Carries.pure⟩

/-- The codec of what is in the bit stream only. -/
def scalarCodec {β : Type} (write : β → EStateM ExiError BitWriter Unit)
    (read : EStateM ExiError BitReader β) : FieldCodec β where
  write v := Encoder.prim (write v)
  read := Decoder.prim read
  Within _ := True
  keeps _ _ _ h := depth_prim h

theorem faithful_scalar {β : Type} {write : β → EStateM ExiError BitWriter Unit}
    {read : EStateM ExiError BitReader β} {Valid : β → Prop} {bits : β → List Bool}
    (h : RoundTrips ExiError.outputFull write read Valid bits) (k : Nat) :
    (scalarCodec write read).Faithful k := by
  intro d v d' _ hread
  have hvalid := Decoder.yields_prim h.yields d v d' hread
  exact ⟨trivial, .of_gets (Encoder.puts_prim (h.puts v hvalid))
    (Decoder.gets_prim (h.gets v hvalid))⟩

/-- What is carried is decoded from somewhere. -/
theorem exists_read_of_carries {β : Type} {write : EStateM ExiError Encoder Unit}
    {read : EStateM ExiError Decoder β} {b : β} (h : Carries 0 0 write read b) :
    ∃ d d', d.depth = 0 ∧ read d = .ok b d' := by
  obtain ⟨bits, f', -, -, hreads⟩ := h ⟨.new, .literal, 0⟩ rfl
  obtain ⟨d, more, hrest⟩ := exists_rest bits
  obtain ⟨g', hread, -⟩ := hreads ⟨d.bits.buf, .new, 0⟩ ⟨rfl, rfl, inStep_new .literal⟩
  obtain ⟨d', hok, -⟩ := hread { d with values := .new, depth := 0 } more rfl hrest
  exact ⟨_, d', rfl, hok⟩

/-- The fields of items that have gone through the emitter. -/
theorem emits_of_mapM {items : List Item} {res : Resolver} {owner : String}
    {fields : List Emitted} (h : items.mapM (fieldOf res owner) = .ok fields)
    (hnarrow : ∀ (j : Nat) (item : Item) (f : Emitted), items[j]? = some item →
      fields[j]? = some f → f.phantom = false → 1 < item.max → item.productions ≤ 1)
    (hu32 : ∀ item ∈ items, item.max ≤ unbounded) : Emits items fields := by
  have heach : fields.length = items.length ∧ ∀ (j : Nat) (item : Item) (f : Emitted),
      items[j]? = some item → fields[j]? = some f → f.Of item := by
    have hall := (mapM_eq_ok (f := fieldOf res owner)).mp h
    obtain ⟨hlen, hget⟩ := List.forall₂_iff_get.mp hall
    refine ⟨hlen.symm, fun j item f hitem hf => ?_⟩
    obtain ⟨hj, hitem⟩ := List.getElem?_eq_some_iff.mp hitem
    obtain ⟨hj', hf⟩ := List.getElem?_eq_some_iff.mp hf
    have hfield := hget j hj hj'
    rw [List.get_eq_getElem, List.get_eq_getElem, hitem, hf] at hfield
    exact of_fieldOf hfield
  exact ⟨heach.1, heach.2, hnarrow, hu32⟩

section Exact

variable {items : List Item} {fields : List Emitted} {contentStart : Nat} {mixed : Bool}

/-- Where nothing that has a field is forbidden, a struct is as faithful as its fields. -/
theorem faithful_struct (hC : ∀ slot, (C slot).Faithful (k + 1)) (hemits : Emits items fields)
    (hnever : ∀ (j : Nat) (item : Item) (f : Emitted), items[j]? = some item →
      fields[j]? = some f → f.phantom = false → item.max = 0 → 0 < item.productions →
      ∃ (i : Nat) (required : Item), items[i]? = some required ∧ required.min ≠ 0
        ∧ ¬ required.Passable) :
    (structCodec C items (shapeOf items contentStart mixed) fields).Faithful k := by
  intro d v d' hd hread
  obtain ⟨hk, hfits, hholds, hclear⟩ := fits_of_decodeBody hC hemits hd hread
  have hlen := hemits.length
  refine ⟨⟨⟨hfits.length, fun j item xs hitem hxs => ?_⟩, ?_⟩, carries_body hfits hemits hk hholds⟩
  · have hlets := hfits.lets j item xs hitem hxs
    have hmin := hlets.min
    have hmax := hlets.max
    rw [List.length_map] at hmin hmax
    refine ⟨hmin, ?_⟩
    by_cases hforbidden : item.max = 0
    · -- an occurrence would be of a field, and something required would have been got past
      have hnil : xs = [] := by
        by_contra hsome
        obtain ⟨x, hx⟩ := List.exists_mem_of_ne_nil xs hsome
        have hlt := (List.getElem?_eq_some_iff.mp hitem).1
        have hf : fields[j]? = some fields[j] := List.getElem?_eq_getElem (by omega)
        have hproductions := hlets.branches x.1 (List.mem_map_of_mem hx)
        have hreal : fields[j].phantom = false := by
          by_contra hphantom
          exact hsome (hfits.phantom j _ xs hf hxs (by simpa using hphantom))
        obtain ⟨i, required, hi, hrequired, hstuck⟩ :=
          hnever j item _ hitem hf hreal hforbidden (by omega)
        exact hstuck (hclear i required (List.getElem?_eq_some_iff.mp hi).1 hi hrequired)
      rw [hnil]
      exact Nat.zero_le _
    · have hone : Nat.max item.max 1 = item.max := Nat.max_eq_left (by omega)
      omega
  · intro j f xs x kind slot hf hxs hx hkind
    exact (hholds j f xs x hf hxs hx).within kind slot hkind

/-- Content of a field that is no phantom, where none of it is read or written. -/
theorem holds_unit {f : Emitted} {item : Item} (hof : f.Of item) (hreal : f.phantom = false)
    {x : Nat × Unit} (hx : x.1 = 0) (hproductions : 0 < item.productions) :
    f.Holds (fun _ => unitCodec) k x := by
  obtain ⟨b, u⟩ := x
  subst hx
  refine ⟨fun _ _ _ => trivial, ?_⟩
  unfold encodeContent decodeContent
  cases hkind : f.kind with
  | single kind slot =>
    exact (carries_kind Carries.pure (hof.single hreal kind slot hkind).2).map rfl
  | choice variants =>
    obtain ⟨hlen, hall⟩ := hof.choice hreal variants hkind
    have hvariant : variants[0]? = some variants[0] := List.getElem?_eq_getElem (by omega)
    dsimp only
    rw [hvariant]
    exact (carries_kind Carries.pure (hall _ (List.getElem_mem (by omega)))).map rfl

/-- One occurrence of item `j`, and of every other as many as it needs. -/
def offending (items : List Item) (j : Nat) : List (List (Nat × Unit)) :=
  items.zipIdx.map fun (item, i) => if i = j then [(0, ())] else List.replicate item.min (0, ())

theorem get_offending {j i : Nat} {xs : List (Nat × Unit)} {item : Item}
    (hitem : items[i]? = some item) (hxs : (offending items j)[i]? = some xs) :
    xs = if i = j then [(0, ())] else List.replicate item.min (0, ()) := by
  have hget : (offending items j)[i]?
      = some (if i = j then [(0, ())] else List.replicate item.min (0, ())) := by
    simp [offending, List.getElem?_zipIdx, hitem]
  rw [hget] at hxs
  exact (Option.some.inj hxs).symm

/-- What must not occur is decoded once, if it has a field and everything required can be got
past. -/
theorem fits_offending (hemits : Emits items fields) {j : Nat} {item : Item} {f : Emitted}
    (hitem : items[j]? = some item) (hf : fields[j]? = some f) (hreal : f.phantom = false)
    (hmax : item.max = 0) (hproductions : 0 < item.productions)
    (hpassable : ∀ (i : Nat) (required : Item), items[i]? = some required → required.min ≠ 0 →
      required.Passable) : Fits items fields (offending items j) := by
  refine ⟨by simp [offending], fun i item' xs hitem' hxs => ?_, fun i f' xs hf' hxs hphantom => ?_⟩
  · have heq := get_offending hitem' hxs
    by_cases hij : i = j
    · subst hij
      rw [hitem] at hitem'
      cases hitem'
      rw [if_pos rfl] at heq
      subst heq
      refine ⟨?_, Nat.le_max_right .., fun b hb => ?_⟩
      -- one occurrence over the maximum at item `j`, and it is let through all the same
      · by_cases hmin : item.min = 0
        · rw [hmin]
          exact Nat.zero_le _
        · have hle := (hpassable i item hitem hmin).2
          rw [hmax] at hle
          exact hle
      · have hzero : b = 0 := by simpa using hb
        omega
    · rw [if_neg hij] at heq
      subst heq
      -- of every other item there is what it requires, and no more
      by_cases hmin : item'.min = 0
      · rw [hmin]
        refine ⟨by omega, Nat.zero_le _, fun b hb => ?_⟩
        cases hb
      · obtain ⟨hcodes, hle⟩ := hpassable i item' hitem' hmin
        refine ⟨by simp, by simpa using hle, fun b hb => ?_⟩
        rw [List.map_replicate] at hb
        rw [List.eq_of_mem_replicate hb]
        exact hcodes
  -- a phantom has nothing, and the offending item is none
  · obtain ⟨item', hitem', hof, -⟩ := hemits.get hf'
    have heq := get_offending hitem' hxs
    by_cases hij : i = j
    · subst hij
      rw [hf] at hf'
      cases hf'
      rw [hphantom] at hreal
      cases hreal
    · rw [if_neg hij, hof.optional hphantom] at heq
      exact heq

/-- **Decoders accept what their encoders can write**, and it is what they read of it, for every
struct with no repeatable choice of several branches whose fields have the same property; and it is
within its bounds for exactly those types of which no item that has a field must not occur, unless
something required can never be got past. -/
theorem decoded_iff {l : Layout} (hl : Layout.compute items contentStart mixed = .ok l)
    {res : Resolver} {owner : String} (hfields : items.mapM (fieldOf res owner) = .ok fields)
    (hnarrow : ∀ item ∈ items, 1 < item.max → item.productions ≤ 1)
    (hu32 : ∀ item ∈ items, item.max ≤ unbounded) :
    (∀ (α : Type) (C : Slot → FieldCodec α) (k : Nat), (∀ slot, (C slot).Faithful (k + 1)) →
        (structCodec C items l.shape fields).Faithful k)
      ↔ ∀ (j : Nat) (item : Item) (f : Emitted), items[j]? = some item → fields[j]? = some f →
          f.phantom = false → item.max = 0 → 0 < item.productions →
          ∃ (i : Nat) (required : Item), items[i]? = some required ∧ required.min ≠ 0
            ∧ ¬ required.Passable := by
  have hemits := emits_of_mapM hfields
    (fun _ item _ hitem _ _ => hnarrow item (List.mem_of_getElem? hitem)) hu32
  have hlen := hemits.length
  obtain ⟨-, hshape, -⟩ := shape_of_compute hl
  rw [hshape]
  constructor
  · intro hfaithful j item f hitem hf hreal hmax hproductions
    -- a value with one occurrence too many is written, and read back as it is
    by_contra hnone
    have hpassable : ∀ (i : Nat) (required : Item), items[i]? = some required →
        required.min ≠ 0 → required.Passable := fun i required hi hrequired => by
      by_contra hstuck
      exact hnone ⟨i, required, hi, hrequired, hstuck⟩
    -- that value is carried, whatever its content is; take content of which nothing is written
    have hfits := fits_offending hemits hitem hf hreal hmax hproductions hpassable
    have hcarries : Carries 0 0
        (encodeBody (fun _ => unitCodec) (shapeOf items contentStart mixed) fields
          (offending items j))
        (decodeBody (fun _ => unitCodec) (shapeOf items contentStart mixed) fields)
        (offending items j) :=
      carries_body hfits hemits (by decide) (fun i f' xs x hf' hxs hx => by
        obtain ⟨item', hitem', hof, -⟩ := hemits.get hf'
        have hreal' : f'.phantom = false := by
          by_contra hphantom
          rw [hfits.phantom i f' xs hf' hxs (by simpa using hphantom)] at hx
          cases hx
        have hlets := hfits.lets i item' xs hitem' hxs
        have hzero : x.1 = 0 := by
          rw [get_offending hitem' hxs] at hx
          split at hx
          · rw [List.mem_singleton.mp hx]
          · rw [List.eq_of_mem_replicate hx]
        have hbranch := hlets.branches x.1 (List.mem_map_of_mem hx)
        exact holds_unit hof hreal' hzero (by omega))
    -- so some bytes are decoded to it, and a faithful codec would have it within its bounds
    obtain ⟨d, d', hd, hread⟩ := exists_read_of_carries hcarries
    obtain ⟨⟨hbounded, -⟩, -⟩ :=
      hfaithful Unit (fun _ => unitCodec) 0 (fun _ => faithful_unit 1) d _ d' hd hread
    have hjlt := (List.getElem?_eq_some_iff.mp hitem).1
    have hlt : j < (offending items j).length := by
      rw [hfits.length]
      exact hjlt
    have hxs : (offending items j)[j]? = some (offending items j)[j] :=
      List.getElem?_eq_getElem hlt
    have hone := (hbounded.bounds j item _ hitem hxs).2
    rw [get_offending hitem hxs, if_pos rfl, hmax] at hone
    exact absurd hone (by decide)
  -- without such an item a struct is as faithful as its fields
  · intro hnever α C k hC
    exact faithful_struct hC hemits hnever

end Exact

/-- A required element and up to three of another. -/
theorem decoded_iff_pair :
    let items : List Item :=
      [.element ⟨⟨"A", ""⟩, .anonymous 0, 1, 1⟩, .element ⟨⟨"B", ""⟩, .anonymous 0, 0, 3⟩]
    let fields : List Emitted :=
      [⟨.single .struct (.field ⟨⟨"A", ""⟩, .anonymous 0, 1, 1⟩), 1, 1, false, false⟩,
        ⟨.single .struct (.field ⟨⟨"B", ""⟩, .anonymous 0, 0, 3⟩), 0, 3, false, false⟩]
    ∀ (α : Type) (C : Slot → FieldCodec α) (k : Nat), (∀ slot, (C slot).Faithful (k + 1)) →
      (structCodec C items (Layout.ofItems items 0 false).shape fields).Faithful k := by
  refine (decoded_iff (by rfl : Layout.compute [.element ⟨⟨"A", ""⟩, .anonymous 0, 1, 1⟩,
      .element ⟨⟨"B", ""⟩, .anonymous 0, 0, 3⟩] 0 false = _)
    (by rfl : List.mapM (fieldOf ⟨fun _ => .struct, fun _ => true⟩ "T") _ = _)
    (by decide) (by decide)).mpr ?_
  intro j item f hitem _ _ hmax _
  have hnone : ∀ item ∈ ([.element ⟨⟨"A", ""⟩, .anonymous 0, 1, 1⟩,
      .element ⟨⟨"B", ""⟩, .anonymous 0, 0, 3⟩] : List Item), item.max ≠ 0 := by decide
  exact absurd hmax (hnone item (List.mem_of_getElem? hitem))

/-- An element that must not occur, a Boolean: the byte `0x10` is decoded to one of them. -/
theorem not_decoded :
    ¬ ∀ (items : List Item) (contentStart : Nat) (mixed : Bool) (l : Layout) (res : Resolver)
      (owner : String) (fields : List Emitted), Layout.compute items contentStart mixed = .ok l →
      items.mapM (fieldOf res owner) = .ok fields →
      (∀ item ∈ items, 1 < item.max → item.productions ≤ 1) →
      (∀ item ∈ items, item.max ≤ unbounded) →
      ∀ (α : Type) (C : Slot → FieldCodec α) (k : Nat), (∀ slot, (C slot).Faithful (k + 1)) →
        (structCodec C items l.shape fields).Faithful k := by
  intro h
  have hfaithful := h [.element ⟨⟨"A", ""⟩, .anonymous 0, 0, 0⟩] 0 false _
    ⟨fun _ => .scalar, fun _ => true⟩ "T" _ rfl rfl (by decide) (by decide) Bool
    (fun _ => scalarCodec writeBool readBool) 0 (fun _ => faithful_scalar roundTrips_bool 1)
  obtain ⟨⟨hbounded, -⟩, -⟩ := hfaithful (.new [0x10]) [[(0, true)]] _ rfl rfl
  have hone := (hbounded.bounds 0 _ [(0, true)] rfl rfl).2
  exact absurd hone (by decide)

end Iso15118.Codegen
