import Iso15118.Codegen.Minimal

/-!
# Round trips of whole crates

What the emitter generates for one struct calls what it generates for others, and in the end the
codecs of scalars. Here all of it is put together, as deep as structs are nested.

**`carries_of_valid`**: a valid value is read back from what is written of it. What is left is that
nothing else comes up: a value of the right type that is written at all is valid
(**`valid_of_write`**), and so is whatever is read (**`valid_of_read`**).

A value is as deep as its structs are nested, so that all three are by induction on that depth, with
the facts about one level of fields from `Bodies` and `Decoded`. The two levels meet in the content
of a field: what is known of a struct one level down is all that a field asks of its content. That
the limit on depth of the source is met on the way down is carried by `Carries` itself.
-/

namespace Iso15118.Codegen

open Iso15118.Lib Iso15118.Exi

/-! ## Scalars

A scalar is written by the codec of its datatype, behind the checks of its facets. Its Rust type
bounds it as well, and between the two every value that is written can be read. -/

namespace Scalar

variable {s : Scalar} {v : ScalarValue}

/-- The values of the type a scalar has in generated code. No string has more bytes than an `isize`
counts. -/
def Typed : Scalar → ScalarValue → Prop
  | uint rust, .uint v => v.toNat ≤ rust.max
  | int rust, .int v | restricted rust _ _, .int v => rust.min ≤ v.toInt ∧ v.toInt ≤ rust.max
  | enumeration _ values, .enumeration index => index < values.length
  | str _ _, .str v => v.length < 2 ^ 63
  | bool, .bool _ | binary _, .binary _ | decimal, .decimal _ | float, .float _
  | dateTime, .dateTime _ => True
  | _, _ => False

/-- A schema that does not permit longer strings than there are. -/
def Short : Scalar → Prop
  | str lengths _ => lengths.max < 2 ^ 63
  | _ => True

/-- What is of its type and passes the checks is read back. -/
theorem carries_encode {k : Nat} (ht : s.Typed v) (hc : s.Checked v) :
    Carries k k (s.encode v) s.decode v := by
  cases s with
  | bool =>
    cases v with
    | bool v =>
      exact .of_gets (Encoder.puts_prim (BitWriter.puts_writeBit v))
        ((Decoder.gets_prim (BitReader.gets_readBit v)).map rfl)
    | _ => cases ht
  | uint rust =>
    cases v with
    | uint v =>
      exact .of_gets (Encoder.puts_prim (puts_writeUint v))
        ((Decoder.gets_prim (gets_readUint v)).map (if_pos ht))
    | _ => cases ht
  | int rust =>
    cases v with
    | int v =>
      exact .of_gets (Encoder.puts_prim (puts_writeInt v))
        ((Decoder.gets_prim (gets_readInt v)).map (if_pos ht))
    | _ => cases ht
  -- a restricted integer is written as its distance from the lower bound
  | restricted rust min max =>
    cases v with
    | int v =>
      exact .of_gets ((roundTrips_restricted _ _).puts v hc)
        (((roundTrips_restricted _ _).gets v hc).map (if_pos ht))
    | _ => cases ht
  -- of an enumeration the index is written
  | enumeration name values =>
    cases v with
    | enumeration index =>
      have hlt : index < 2 ^ bitWidth values.length := lt_two_pow_bitWidth ht
      exact .of_gets (Encoder.puts_prim (BitWriter.puts_writeBits index _))
        ((Decoder.gets_prim (BitReader.gets_readBits hlt)).map (if_pos ht))
    | _ => cases ht
  -- strings are the one scalar that the tables matter for
  | str lengths ctx =>
    cases v with
    | str v => exact (carries_string ⟨ctx, v, lengths, ht⟩ hc).map rfl
    | _ => cases ht
  | binary lengths =>
    cases v with
    | binary v =>
      exact .of_gets ((roundTrips_binary_lengths lengths).puts v hc)
        (((roundTrips_binary_lengths lengths).gets v hc).map rfl)
    | _ => cases ht
  | decimal =>
    cases v with
    | decimal v =>
      exact .of_gets (Encoder.puts_prim (roundTrips_decimal.puts v trivial))
        ((Decoder.gets_prim (roundTrips_decimal.gets v trivial)).map rfl)
    | _ => cases ht
  | float =>
    cases v with
    | float v =>
      exact .of_gets (Encoder.puts_prim (roundTrips_float.puts v hc))
        ((Decoder.gets_prim (roundTrips_float.gets v hc)).map rfl)
    | _ => cases ht
  | dateTime =>
    cases v with
    | dateTime v =>
      exact .of_gets (Encoder.puts_prim (puts_writeDatetime hc))
        ((Decoder.gets_prim (gets_readDatetime hc)).map rfl)
    | _ => cases ht

/-- What is read is of its type, and would pass the checks. -/
theorem yields_decode (hshort : s.Short) : Yields s.decode fun v => s.Typed v ∧ s.Checked v := by
  cases s with
  | bool => exact (Yields.true _).bind fun v _ => .pure ⟨trivial, trivial⟩
  | uint rust =>
    refine (Yields.true _).bind fun v _ => ?_
    by_cases hv : v.toNat ≤ rust.max
    · rw [if_pos hv]
      exact .pure ⟨hv, trivial⟩
    · rw [if_neg hv]
      exact .throw
  | int rust =>
    refine (Yields.true _).bind fun v _ => ?_
    by_cases hv : rust.min ≤ v.toInt ∧ v.toInt ≤ rust.max
    · rw [if_pos hv]
      exact .pure ⟨hv, trivial⟩
    · rw [if_neg hv]
      exact .throw
  | restricted rust min max =>
    refine (roundTrips_restricted _ _).yields.bind fun v hin => ?_
    by_cases hv : rust.min ≤ v.toInt ∧ v.toInt ≤ rust.max
    · rw [if_pos hv]
      exact .pure ⟨hv, hin⟩
    · rw [if_neg hv]
      exact .throw
  -- an index past the last literal is refused
  | enumeration name values =>
    refine (Yields.true _).bind fun index _ => ?_
    by_cases hv : index < values.length
    · rw [if_pos hv]
      exact .pure ⟨hv, trivial⟩
    · rw [if_neg hv]
      exact .throw
  -- a string is within its lengths, and those are small
  | str lengths ctx =>
    have hstring : Yields (Decoder.string ctx lengths)
        fun v => lengths.admits v.length = true := by
      intro d v d' hok
      obtain ⟨v', d₁, -, hcheck⟩ := bind_ok.mp hok
      obtain ⟨u, d₂, hadmits, hpure⟩ := bind_ok.mp hcheck
      cases hpure
      exact (Lengths.admits_of_check hadmits).1
    refine hstring.bind fun v hv => .pure ⟨?_, hv⟩
    exact Nat.lt_of_le_of_lt (le_max_of_admits hv) hshort
  | binary lengths =>
    exact (roundTrips_binary_lengths lengths).yields.bind fun v hv => .pure ⟨trivial, hv⟩
  | decimal => exact (Yields.true _).bind fun v _ => .pure ⟨trivial, trivial⟩
  | float =>
    exact (Decoder.yields_prim roundTrips_float.yields).bind fun v hv => .pure ⟨trivial, hv⟩
  | dateTime =>
    exact (Decoder.yields_prim roundTrips_datetime.yields).bind fun v hv => .pure ⟨trivial, hv⟩

theorem faithful_codec (hshort : s.Short) (k : Nat) : s.codec.Faithful k := by
  intro d v d' _ hread
  obtain ⟨ht, hc⟩ := yields_decode hshort d v d' hread
  exact ⟨hc, carries_encode ht hc⟩

end Scalar

/-- No facet of the schema permits longer strings than there are. -/
def Emitter.Short (E : Emitter) : Prop :=
  ∀ typeRef st m, E.resolve typeRef = some (.simple st) → st.maxLength = some m → m.toNat < 2 ^ 63

/-- A builtin type is short if its longest length is. -/
theorem short_builtin (localName : String) {facets : Facets} (ctx : ValueCtx)
    (h : ∀ m, facets.maxLength = some m → m.toNat < 2 ^ 63) :
    (builtin localName facets ctx).Short := by
  have hlengths : facets.lengths.max < 2 ^ 63 := by
    have hmax : (facets.maxLength.getD 65536).toNat < 2 ^ 63 := by
      cases hlen : facets.maxLength with
      | none => decide
      | some m => exact h m hlen
    unfold Facets.lengths
    dsimp only
    split
    · exact hmax
    · split
      · exact hmax
      · split
        · next heq => exact lt_of_eq_of_lt heq hmax
        · exact hmax
  unfold builtin
  split
  · unfold integerOf
    dsimp only
    split
    · split
      · exact trivial
      · split <;> exact trivial
    · split <;> exact trivial
  · split
    all_goals first
      | exact trivial
      | exact hlengths

/-- Restrictions only take away from how long a string may be. -/
theorem short_scalarWithin {E : Emitter} (hE : E.Short) {owner : Option QName} {n : Nat}
    {current : TypeRef} {facets : Facets} {s : Scalar}
    (hfacets : ∀ m, facets.maxLength = some m → m.toNat < 2 ^ 63)
    (h : E.scalarWithin owner n current facets = some s) : s.Short := by
  induction n generalizing current facets with
  | zero => cases h
  | succ n ih =>
    unfold Emitter.scalarWithin at h
    split at h
    -- the chain ends here: an enumeration is no string, and a built-in type has the facets gathered
    · next hturn =>
      cases h
      unfold Emitter.scalarTurn at hturn
      split at hturn
      · split at hturn
        · cases hturn
          exact trivial
        · cases hturn
      · split at hturn
        · cases hturn
          exact short_builtin _ _ hfacets
        · split at hturn
          · next st _ => cases hbase : st.base <;> simp [hbase] at hturn
          · cases hturn
    -- or goes on with the base, under facets that are narrower
    · next base facets' hturn =>
      refine ih (fun m hm => ?_) h
      unfold Emitter.scalarTurn at hturn
      split at hturn
      · split at hturn <;> simp at hturn
      · split at hturn
        · simp at hturn
        · split at hturn
          · next st hst =>
            obtain ⟨base', -, heq⟩ := Option.map_eq_some_iff.mp hturn
            cases heq
            have hm : narrow min facets.maxLength st.maxLength = some m := hm
            unfold narrow at hm
            cases hnew : st.maxLength with
            | none =>
              rw [hnew] at hm
              exact hfacets m hm
            | some v =>
              rw [hnew] at hm
              have hv := hE _ st v hst hnew
              cases hcur : facets.maxLength with
              | none =>
                rw [hcur] at hm
                cases hm
                exact hv
              | some w =>
                rw [hcur] at hm
                cases hm
                show (if w ≤ v then w else v).toNat < 2 ^ 63
                split
                · exact hfacets w hcur
                · exact hv
          · cases hturn
    · cases h

theorem short_content {E : Emitter} (hE : E.Short) {slot : Slot} {s : Scalar}
    (h : E.content slot = .scalar s) : s.Short := by
  obtain ⟨typeRef, owner, hscalar⟩ := scalar_of_content h
  exact short_scalarWithin hE (fun m hm => by cases hm) hscalar

/-! ## Content of one type among others

All structs share one type of values, so the codec of one is extended to it: it refuses whatever
is of another. -/

section Into

variable {α β : Type} {C : FieldCodec α} {wrap : α → β} {unwrap : β → Option α} {k : Nat} {a : α}

theorem carries_into (hunwrap : unwrap (wrap a) = some a) (h : Carries k k (C.write a) C.read a) :
    Carries k k ((C.into wrap unwrap).write (wrap a)) (C.into wrap unwrap).read (wrap a) := by
  have hwrite : (C.into wrap unwrap).write (wrap a) = C.write a := by
    simp only [FieldCodec.into, hunwrap]
  rw [hwrite]
  exact h.map rfl

theorem faithful_into (hunwrap : ∀ a, unwrap (wrap a) = some a) (h : C.Faithful k) :
    (C.into wrap unwrap).Faithful k := by
  intro d v d' hd hread
  obtain ⟨a, d₁, hinner, hpure⟩ := bind_ok.mp hread
  cases hpure
  obtain ⟨hwithin, hcarries⟩ := h d a d' hd hinner
  exact ⟨⟨a, hunwrap a, hwithin⟩, carries_into (hunwrap a) hcarries⟩

theorem faithful_refused (x : ExiError) : (FieldCodec.refused α x).Faithful k :=
  fun _ _ _ _ hread => by cases hread

/-- What is carried is read from somewhere. -/
theorem exists_read {read : EStateM ExiError Decoder β} {write : EStateM ExiError Encoder Unit}
    {b : β} (h : Carries k k write read b) : ∃ d d', d.depth = k ∧ read d = .ok b d' := by
  obtain ⟨bits, f', -, -, hreads⟩ := h ⟨.new, .literal, k⟩ rfl
  obtain ⟨d, more, hrest⟩ := exists_rest bits
  obtain ⟨g', hread, -⟩ := hreads ⟨d.bits.buf, .new, k⟩ ⟨rfl, rfl, inStep_new .literal⟩
  obtain ⟨d', hok, -⟩ := hread { d with values := .new, depth := k } more rfl hrest
  exact ⟨_, d', rfl, hok⟩

end Into

/-! ## Fields

What the schema says of a field in terms of items and branches, and what the generated code does
in terms of kinds and variants, are about the same occurrences. -/

/-- What a branch of a field is of. -/
def Emitted.slotOf (f : Emitted) (b : Nat) : Option Slot :=
  match f.kind with
  | .single _ slot => if b = 0 then some slot else none
  | .choice variants => (variants[b]?).map Prod.snd

/-- How many occurrences there are in a field of generated code: none of a phantom, and then a `Vec`
of them, which is to be no longer than a `u32` counts, a bare one or an `Option`. -/
def Emitted.Holdable (f : Emitted) (count : Nat) : Prop :=
  if f.phantom then count = 0
  else if f.max > 1 then count < 2 ^ 32
  else if f.min > 0 then count = 1
  else count ≤ 1

section Field

variable {α : Type} {C : Slot → FieldCodec α} {k : Nat} {f : Emitted} {item : Item} {x : Nat × α}
  {slot : Slot}

/-- A branch is one of the item's. -/
theorem branch_of_slotOf (hof : f.Of item) (hreal : f.phantom = false) {b : Nat}
    (h : f.slotOf b = some slot) : b < item.productions := by
  unfold Emitted.slotOf at h
  cases hkind : f.kind with
  | single kind slot' =>
    rw [hkind] at h
    have hone := (hof.single hreal kind slot' hkind).1
    dsimp only at h
    split at h
    · omega
    · cases h
  | choice variants =>
    rw [hkind] at h
    obtain ⟨variant, hvariant, -⟩ := Option.map_eq_some_iff.mp h
    rw [← (hof.choice hreal variants hkind).1]
    exact (List.getElem?_eq_some_iff.mp hvariant).1

/-- An occurrence holds if the content of its branch does. -/
theorem holds_of_slotOf (hof : f.Of item) (hreal : f.phantom = false)
    (hslot : f.slotOf x.1 = some slot) (hwithin : (C slot).Within x.2)
    (hcarries : Carries k k ((C slot).write x.2) (C slot).read x.2) : f.Holds C k x := by
  obtain ⟨b, v⟩ := x
  unfold Emitted.slotOf at hslot
  cases hkind : f.kind with
  -- a field of one slot
  | single kind slot' =>
    rw [hkind] at hslot
    dsimp only at hslot
    split at hslot
    · next hzero =>
      cases hslot
      subst hzero
      refine ⟨fun kind' slot'' h => ?_, ?_⟩
      · rcases h with h | ⟨variants, h, -⟩
        · rw [hkind] at h
          cases h
          exact hwithin
        · rw [hkind] at h
          cases h
      · unfold encodeContent decodeContent
        rw [hkind]
        exact (carries_kind hcarries (hof.single hreal kind slot hkind).2).map rfl
    · cases hslot
  -- a choice: the slot of the variant that was taken
  | choice variants =>
    rw [hkind] at hslot
    obtain ⟨⟨kind, slot'⟩, hvariant, rfl⟩ := Option.map_eq_some_iff.mp hslot
    refine ⟨fun kind' slot'' h => ?_, ?_⟩
    · rcases h with h | ⟨variants', h, hvariant'⟩
      · rw [hkind] at h
        cases h
      · rw [hkind] at h
        cases h
        rw [hvariant] at hvariant'
        cases hvariant'
        exact hwithin
    · have hsupported := (hof.choice hreal variants hkind).2 _ (List.mem_of_getElem? hvariant)
      unfold encodeContent decodeContent
      rw [hkind]
      dsimp only at hvariant ⊢
      rw [hvariant]
      exact (carries_kind hcarries hsupported).map rfl

/-- What is decoded of an occurrence is of the branch it is in. -/
theorem slotOf_of_decodeContent {branch : Nat} {d d' : Decoder}
    (h : decodeContent C f branch d = .ok x d') :
    ∃ slot, f.slotOf x.1 = some slot ∧ ∃ d₁ d₂, (C slot).read d₁ = .ok x.2 d₂ := by
  -- whatever frames the content, the codec of the slot is what reads it
  have hread : ∀ {kind : Kind} {isAttribute : Bool} {slot : Slot},
      decodeKind C kind isAttribute slot d = .ok x.2 d' →
      ∃ d₁ d₂, (C slot).read d₁ = .ok x.2 d₂ := by
    intro kind isAttribute slot h
    cases kind with
    | struct => exact ⟨d, d', h⟩
    | scalar =>
      cases isAttribute with
      | true => exact ⟨d, d', h⟩
      | false =>
        obtain ⟨u, d₁, -, h⟩ := bind_ok.mp h
        obtain ⟨v, d₂, hread, h⟩ := bind_ok.mp h
        obtain ⟨u', d₃, -, hpure⟩ := bind_ok.mp h
        cases hpure
        exact ⟨d₁, d₂, hread⟩
    | unsupported => cases h
  rcases decodeContent_cases h with ⟨kind, slot, hkind, hzero, h⟩
    | ⟨variants, kind, slot, hkind, hvariant, hbranch, h⟩
  · refine ⟨slot, ?_, hread h⟩
    unfold Emitted.slotOf
    rw [hkind]
    exact if_pos hzero
  · refine ⟨slot, ?_, hread h⟩
    unfold Emitted.slotOf
    rw [hkind, hbranch]
    dsimp only
    rw [hvariant]
    rfl

/-- What is encoded of an occurrence is what its branch is of. -/
theorem write_of_encodeContent (hslot : f.slotOf x.1 = some slot) {e e' : Encoder}
    (h : encodeContent C f x e = .ok () e') : ∃ e₁ e₂, (C slot).write x.2 e₁ = .ok () e₂ := by
  unfold Emitted.slotOf at hslot
  unfold encodeContent at h
  cases hkind : f.kind with
  | single kind slot' =>
    rw [hkind] at hslot h
    dsimp only at hslot
    split at hslot
    · cases hslot
      exact write_of_kind h
    · cases hslot
  | choice variants =>
    rw [hkind] at hslot h
    obtain ⟨⟨kind, slot'⟩, hvariant, rfl⟩ := Option.map_eq_some_iff.mp hslot
    dsimp only at hvariant h
    rw [hvariant] at h
    exact write_of_kind h

theorem content_of_occurrences {w : SeqWriter} {j c : Nat} {xs : List (Nat × α)} {e e' : Encoder}
    (h : encodeOccurrences C f w j c xs e = .ok () e') :
    ∀ x ∈ xs, ∃ e₁ e₂, encodeContent C f x e₁ = .ok () e₂ := by
  induction xs generalizing c e with
  | nil => simp
  | cons x xs ih =>
    obtain ⟨u, e₁, hvalue, hrest⟩ := bind_ok.mp h
    exact List.forall_mem_cons.mpr ⟨content_of_value hvalue, ih hrest⟩

/-- A field that is written has as many occurrences as its reader lets through, and the content of
all of them is written. -/
theorem count_of_field (hof : f.Of item) (horder : item.min ≤ item.max) {xs : List (Nat × α)}
    (hhold : f.Holdable xs.length) {w w' : SeqWriter} {j : Nat} {e e' : Encoder}
    (h : encodeField C f j w xs e = .ok w' e') :
    item.min ≤ xs.length ∧ xs.length ≤ Nat.max item.max 1
      ∧ ∀ x ∈ xs, ∃ e₁ e₂, encodeContent C f x e₁ = .ok () e₂ := by
  have hfmin := hof.min
  have hfmax := hof.max
  unfold Emitted.Holdable at hhold
  unfold encodeField at h
  -- a phantom is never written, and its item is optional
  by_cases hphantom : f.phantom = true
  · rw [if_pos hphantom] at hhold
    have hmin := hof.optional hphantom
    rw [List.length_eq_zero_iff.mp hhold]
    exact ⟨by omega, Nat.zero_le _, by simp⟩
  · rw [if_neg hphantom] at hhold h
    -- the encoder checks the bounds of a list itself
    by_cases hmany : f.max > 1
    · rw [if_pos hmany] at hhold h
      have hcount : asU32 xs.length = xs.length := Nat.mod_eq_of_lt hhold
      rw [hcount] at h
      split at h
      · cases h
      · next hbounds =>
        rw [not_or, not_and, not_and] at hbounds
        obtain ⟨u, e₁, hoccurrences, -⟩ := bind_ok.mp h
        have hle : xs.length ≤ item.max := by
          by_cases hunbounded : f.max = unbounded
          · unfold unbounded at hunbounded
            omega
          · have hle := hbounds.2 hunbounded
            omega
        refine ⟨?_, Nat.le_trans hle (Nat.le_max_left ..), content_of_occurrences hoccurrences⟩
        by_cases hmin : f.min > 0
        · have hle := hbounds.1 hmin
          omega
        · omega
    -- an option, or a bare value: at most one
    · rw [if_neg hmany] at hhold h
      have hone : xs.length ≤ 1 := by
        split at hhold
        · omega
        · omega
      have hmin : item.min ≤ xs.length := by
        split at hhold
        · omega
        · omega
      refine ⟨hmin, Nat.le_trans hone (Nat.le_max_right ..), ?_⟩
      match xs with
      | [] => simp
      | [x] =>
        obtain ⟨u, e₁, hvalue, -⟩ := bind_ok.mp h
        exact List.forall_mem_singleton.mpr (content_of_value hvalue)
      | _ :: _ :: _ => simp at hone

end Field

/-! ## Structs

Structs refer to one another and may do so in circles, but a value is only so deep. Everything is
by induction on how many levels of structs there may be, where the content one level down is
faithful by the hypothesis. -/

/-- What is asked of the schema of a struct: bounds in order, no forbidden items, a single code for
whatever is repeated and has a field, and no strings longer than there are. -/
structure Generated.Regular (G : Generated) : Prop where
  order : ∀ item ∈ G.items, item.min ≤ item.max
  possible : ∀ item ∈ G.items, 0 < item.max
  u32 : ∀ item ∈ G.items, item.max ≤ unbounded
  narrow : ∀ (j : Nat) (item : Item) (f : Emitted), G.items[j]? = some item →
    G.fields[j]? = some f → f.phantom = false → 1 < item.max → item.productions ≤ 1
  short : G.emitter.Short

namespace Generated

variable {G : Generated}

theorem Regular.emits (h : G.Regular) : Emits G.items G.fields :=
  emits_of_mapM G.emitted h.narrow h.u32

theorem layout_shape (G : Generated) : G.layout.shape = shapeOf G.items G.contentStart G.mixed :=
  (shape_of_compute G.computed).2.1

end Generated

namespace Crate

variable {ι : Type} {P : Crate ι} {i : ι}

section Values

variable (P)

/-- Content of struct `i` that is of its type, where `inner` is for the structs in it. -/
def TypedContent (inner : ι → List (List (Nat × Value)) → Prop) (i : ι) (slot : Slot)
    (v : Value) : Prop :=
  match P.content i slot with
  | .scalar s => ∃ a, v = .scalar a ∧ s.Typed a
  | .struct name => ∃ a, v = .struct a ∧ inner (P.named i name) a
  | .unsupported => False

/-- A value of the Rust type of struct `i`, with `n` structs within one another at most. -/
def TypedWithin : Nat → ι → List (List (Nat × Value)) → Prop
  | 0, _, _ => False
  | n + 1, i, v => List.Forall₂ (fun f xs => f.Holdable xs.length ∧ ∀ x ∈ xs, ∃ slot,
      f.slotOf x.1 = some slot ∧ P.TypedContent (TypedWithin n) i slot x.2)
      (P.struct i).fields v

/-- Content of struct `i` that is of its type and keeps to its facets. -/
def ValidContent (inner : ι → List (List (Nat × Value)) → Prop) (i : ι) (slot : Slot)
    (v : Value) : Prop :=
  match P.content i slot with
  | .scalar s => ∃ a, v = .scalar a ∧ s.Typed a ∧ s.Checked a
  | .struct name => ∃ a, v = .struct a ∧ inner (P.named i name) a
  | .unsupported => False

/-- A value the schema permits of struct `i`: every item as often as it may occur, nothing of a
phantom, and all content within its facets. -/
def ValidWithin : Nat → ι → List (List (Nat × Value)) → Prop
  | 0, _, _ => False
  | n + 1, i, v => Fits (P.struct i).items (P.struct i).fields v
      ∧ ∀ (j : Nat) (f : Emitted) (xs : List (Nat × Value)) (x : Nat × Value),
        (P.struct i).fields[j]? = some f → v[j]? = some xs → x ∈ xs → ∃ slot,
          f.slotOf x.1 = some slot ∧ P.ValidContent (ValidWithin n) i slot x.2

end Values

/-- Where no struct forbids anything, all of them read only what they would write. -/
theorem faithful_codecWithin (hreg : ∀ i, (P.struct i).Regular) (n k : Nat) (i : ι) :
    (P.codecWithin n i).Faithful k := by
  induction n generalizing k i with
  | zero => exact faithful_refused _
  | succ n ih =>
    have hcontent : ∀ slot, (P.contentCodec (P.codecWithin n) i slot).Faithful (k + 1) := by
      intro slot
      unfold contentCodec
      cases hslot : P.content i slot with
      | scalar s =>
        have hshort := short_content (hreg i).short hslot
        exact faithful_into (fun a => rfl) (Scalar.faithful_codec hshort _)
      | struct name => exact faithful_into (fun a => rfl) (ih (k + 1) (P.named i name))
      | unsupported => exact faithful_refused _
    show (structCodec _ (P.struct i).items (P.struct i).layout.shape (P.struct i).fields).Faithful k
    rw [(P.struct i).layout_shape]
    apply faithful_struct hcontent (hreg i).emits
    intro j item f hitem _ _ hnever _
    have hpossible := (hreg i).possible item (List.mem_of_getElem? hitem)
    omega

/-- **What is valid is read back** from what is written of it, from wherever there are levels
enough left. -/
theorem carries_of_valid (hreg : ∀ i, (P.struct i).Regular) {n k fuel : Nat}
    {v : List (List (Nat × Value))} (hv : P.ValidWithin n i v) (hk : k + n ≤ maxDepth)
    (hfuel : n ≤ fuel) : (P.codecWithin fuel i).Within v
      ∧ Carries k k ((P.codecWithin fuel i).write v) (P.codecWithin fuel i).read v := by
  induction n generalizing i k fuel v with
  | zero => exact hv.elim
  | succ n ih =>
    obtain ⟨fuel, rfl⟩ := Nat.exists_eq_succ_of_ne_zero (show fuel ≠ 0 by omega)
    obtain ⟨hfits, hcontent⟩ := hv
    have hemits := (hreg i).emits
    -- an occurrence is carried: a scalar by its codec, and a struct by the hypothesis, one level
    -- down
    have hholds : ∀ (j : Nat) (f : Emitted) (xs : List (Nat × Value)) (x : Nat × Value),
        (P.struct i).fields[j]? = some f → v[j]? = some xs → x ∈ xs →
        f.Holds (P.contentCodec (P.codecWithin fuel) i) (k + 1) x := by
      intro j f xs x hf hxs hx
      obtain ⟨item, -, hof, -⟩ := hemits.get hf
      have hreal : f.phantom = false := by
        by_contra hphantom
        rw [hfits.phantom j f xs hf hxs (by simpa using hphantom)] at hx
        cases hx
      obtain ⟨slot, hslot, hvalid⟩ := hcontent j f xs x hf hxs hx
      suffices hboth : (P.contentCodec (P.codecWithin fuel) i slot).Within x.2
          ∧ Carries (k + 1) (k + 1) ((P.contentCodec (P.codecWithin fuel) i slot).write x.2)
            (P.contentCodec (P.codecWithin fuel) i slot).read x.2 from
        holds_of_slotOf hof hreal hslot hboth.1 hboth.2
      unfold ValidContent at hvalid
      cases hkind : P.content i slot with
      | scalar s =>
        rw [hkind] at hvalid
        obtain ⟨a, ha, htyped, hchecked⟩ := hvalid
        rw [contentCodec_scalar hkind, ha]
        exact ⟨⟨a, rfl, hchecked⟩, carries_into (C := s.codec) rfl
          (Scalar.carries_encode htyped hchecked)⟩
      | struct name =>
        rw [hkind] at hvalid
        obtain ⟨a, ha, hinner⟩ := hvalid
        obtain ⟨hwithin, hcarries⟩ := ih hinner (show k + 1 + n ≤ maxDepth by omega)
          (show n ≤ fuel by omega)
        rw [contentCodec_struct hkind, ha]
        exact ⟨⟨a, rfl, hwithin⟩, carries_into rfl hcarries⟩
      | unsupported =>
        rw [hkind] at hvalid
        exact hvalid.elim
    -- and a body is, if its occurrences are
    show (structCodec _ (P.struct i).items (P.struct i).layout.shape (P.struct i).fields).Within v
      ∧ Carries k k (encodeBody _ (P.struct i).layout.shape _ v) (decodeBody _ _ _) v
    rw [(P.struct i).layout_shape]
    refine ⟨⟨⟨hfits.length, fun j item xs hitem hxs => ?_⟩, fun j f xs x kind slot hf hxs hx =>
      (hholds j f xs x hf hxs hx).within kind slot⟩, carries_body hfits hemits (by omega) hholds⟩
    have hlets := hfits.lets j item xs hitem hxs
    have hmin := hlets.min
    have hmax := hlets.max
    have hpossible := (hreg i).possible item (List.mem_of_getElem? hitem)
    have hone : Nat.max item.max 1 = item.max := Nat.max_eq_left hpossible
    rw [List.length_map] at hmin hmax
    omega

/-- What is read is valid. -/
theorem valid_of_read (hreg : ∀ i, (P.struct i).Regular) {n : Nat} {v : List (List (Nat × Value))}
    {d d' : Decoder} (h : (P.codecWithin n i).read d = .ok v d') : P.ValidWithin n i v := by
  induction n generalizing i v d d' with
  | zero => cases h
  | succ n ih =>
    have hread : decodeBody (P.contentCodec (P.codecWithin n) i) (P.struct i).layout.shape
        (P.struct i).fields d = .ok v d' := h
    rw [(P.struct i).layout_shape] at hread
    -- what each content codec reads, it writes back
    have hfaithful : ∀ slot, (P.contentCodec (P.codecWithin n) i slot).Faithful (d.depth + 1) := by
      intro slot
      unfold contentCodec
      cases hslot : P.content i slot with
      | scalar s =>
        have hshort := short_content (hreg i).short hslot
        exact faithful_into (fun a => rfl) (Scalar.faithful_codec hshort _)
      | struct name => exact faithful_into (fun a => rfl) (faithful_codecWithin hreg n _ _)
      | unsupported => exact faithful_refused _
    obtain ⟨-, hfits, hholds, -⟩ := fits_of_decodeBody hfaithful (hreg i).emits rfl hread
    refine ⟨hfits, fun j f xs x hf hxs hx => ?_⟩
    -- an occurrence that is carried has been read from somewhere
    obtain ⟨d₁, d₂, -, hcontent⟩ := exists_read (hholds j f xs x hf hxs hx).carries
    obtain ⟨slot, hslot, d₃, d₄, hslotread⟩ := slotOf_of_decodeContent hcontent
    obtain ⟨b, value⟩ := x
    refine ⟨slot, hslot, ?_⟩
    unfold ValidContent
    cases hkind : P.content i slot with
    | scalar s =>
      rw [contentCodec_scalar hkind] at hslotread
      obtain ⟨a, d₅, hscalar, hpure⟩ := bind_ok.mp hslotread
      cases hpure
      exact ⟨a, rfl, Scalar.yields_decode (short_content (hreg i).short hkind) _ _ _ hscalar⟩
    | struct name =>
      rw [contentCodec_struct hkind] at hslotread
      obtain ⟨a, d₅, hinner, hpure⟩ := bind_ok.mp hslotread
      cases hpure
      exact ⟨a, rfl, ih hinner⟩
    | unsupported =>
      unfold contentCodec at hslotread
      rw [hkind] at hslotread
      cases hslotread

/-- What is of its type and is written is valid. -/
theorem valid_of_write (hreg : ∀ i, (P.struct i).Regular) {m n : Nat}
    {v : List (List (Nat × Value))} (ht : P.TypedWithin m i v) {e e' : Encoder}
    (h : (P.codecWithin n i).write v e = .ok () e') : P.ValidWithin n i v := by
  induction n generalizing m i v e e' with
  | zero => cases h
  | succ n ih =>
    cases m with
    | zero => exact ht.elim
    | succ m =>
      have htyped : List.Forall₂ _ (P.struct i).fields v := ht
      have hwritten := fields_of_body htyped.length_eq h
      have hlen := htyped.length_eq
      have hemits := (hreg i).emits
      -- each field has been written, with all that is in it
      have hfield : ∀ (j : Nat) (f : Emitted) (xs : List (Nat × Value)),
          (P.struct i).fields[j]? = some f → v[j]? = some xs → f.Holdable xs.length
            ∧ (∀ x ∈ xs, ∃ slot, f.slotOf x.1 = some slot
              ∧ P.TypedContent (P.TypedWithin m) i slot x.2)
            ∧ ∃ j w w' e₁ e₂, encodeField (P.contentCodec (P.codecWithin n) i) f j w xs e₁
              = .ok w' e₂ := by
        intro j f xs hf hxs
        obtain ⟨hj, rfl⟩ := List.getElem?_eq_some_iff.mp hf
        obtain ⟨hj', rfl⟩ := List.getElem?_eq_some_iff.mp hxs
        obtain ⟨hhold, hall⟩ := (List.forall₂_iff_get.mp htyped).2 j hj hj'
        exact ⟨hhold, hall, (List.forall₂_iff_get.mp hwritten).2 j hj hj'⟩
      refine ⟨⟨hlen.symm.trans hemits.length, fun j item xs hitem hxs => ?_,
        fun j f xs hf hxs hphantom => ?_⟩, fun j f xs x hf hxs hx => ?_⟩
      -- as many occurrences as the item may have, each in one of its branches
      · have hlt := (List.getElem?_eq_some_iff.mp hxs).1
        have hf : (P.struct i).fields[j]? = some (P.struct i).fields[j] :=
          List.getElem?_eq_getElem (by omega)
        have hof := hemits.each j item _ hitem hf
        obtain ⟨hhold, hall, j', w, w', e₁, e₂, hok⟩ := hfield j _ xs hf hxs
        obtain ⟨hmin, hmax, -⟩ := count_of_field hof
          ((hreg i).order item (List.mem_of_getElem? hitem)) hhold hok
        refine ⟨by simpa using hmin, by simpa using hmax, fun b hb => ?_⟩
        obtain ⟨x, hx, rfl⟩ := List.mem_map.mp hb
        obtain ⟨slot, hslot, -⟩ := hall x hx
        refine branch_of_slotOf hof ?_ hslot
        by_contra hphantom
        unfold Emitted.Holdable at hhold
        rw [if_pos (by simpa using hphantom), List.length_eq_zero_iff] at hhold
        rw [hhold] at hx
        cases hx
      -- nothing of a phantom
      · obtain ⟨hhold, -⟩ := hfield j f xs hf hxs
        unfold Emitted.Holdable at hhold
        rw [if_pos hphantom] at hhold
        exact List.length_eq_zero_iff.mp hhold
      -- the content of each occurrence, which for a struct is one level down
      · obtain ⟨item, hitem, hof, -⟩ := hemits.get hf
        obtain ⟨hhold, hall, j', w, w', e₁, e₂, hok⟩ := hfield j f xs hf hxs
        obtain ⟨-, -, hcontents⟩ := count_of_field hof
          ((hreg i).order item (List.mem_of_getElem? hitem)) hhold hok
        obtain ⟨slot, hslot, htypedx⟩ := hall x hx
        obtain ⟨e₃, e₄, hcontent⟩ := hcontents x hx
        obtain ⟨e₅, e₆, hwrite⟩ := write_of_encodeContent hslot hcontent
        refine ⟨slot, hslot, ?_⟩
        unfold TypedContent at htypedx
        unfold ValidContent
        cases hkind : P.content i slot with
        | scalar s =>
          rw [hkind] at htypedx
          obtain ⟨a, ha, htypeda⟩ := htypedx
          rw [contentCodec_scalar hkind, ha] at hwrite
          exact ⟨a, ha, htypeda, Scalar.checked_of_encode hwrite⟩
        | struct name =>
          rw [hkind] at htypedx
          obtain ⟨a, ha, htypeda⟩ := htypedx
          rw [contentCodec_struct hkind, ha] at hwrite
          exact ⟨a, ha, ih htypeda hwrite⟩
        | unsupported =>
          rw [hkind] at htypedx
          exact htypedx.elim

end Crate

end Iso15118.Codegen
