import Iso15118.Exi.Codec

/-!
# Strings through the table

A string value is written as an index into the table or in full, and only a value that is written in
full is added to it, by the encoder where references are written and by the decoder always.

**`strings_roundtrip`** — string values are read back in either coding, and where references are
written the tables of the two sides agree at every point.
-/

namespace Iso15118.Exi

open Iso15118.Lib

/-- A string value to be written, in its context and under its facets; there are no longer strings
in memory. -/
structure StringValue where
  ctx : ValueCtx
  value : String
  lengths : Lengths
  length_lt : value.length < 2 ^ 63

/-- What a string value is written as. -/
def stringBits (values : ValueTable) (coding : ValueCoding) (ctx : ValueCtx) (value : String) :
    List Bool :=
  match Encoder.hit coding values ctx value with
  | .local idx => uintBits 0 ++ bitsOf (values.localIndexWidth ctx) idx
  | .global idx => uintBits 1 ++ bitsOf values.globalIndexWidth idx
  | .miss => uintBits (UInt64.ofNat value.length + 2) ++ charBits value.toList

/-- The encoder's table behind it. -/
def afterWritten (values : ValueTable) (coding : ValueCoding) (ctx : ValueCtx) (value : String) :
    ValueTable :=
  match Encoder.hit coding values ctx value, coding with
  | .miss, .referenced => values.insert ctx value
  | _, _ => values

/-! ## Writing

A string is looked up, and then written as an index or in full. Each of the three ways puts out
bits that depend on the table alone. -/

theorem writes_remember (f : Encoder.Context) (ctx : ValueCtx) (value : String) :
    Writes ExiError.outputFull (Encoder.remember ctx value) f
      { f with
        values :=
          match f.coding with
          | .referenced => f.values.insert ctx value
          | .literal => f.values } [] := by
  intro e hf
  subst hf
  cases e with
  | mk bits values coding depth =>
    cases coding with
    | referenced =>
      exact ⟨fun _ => ⟨_, rfl, (List.append_nil _).symm, rfl, rfl⟩,
        fun h => absurd h (Nat.not_lt_zero _)⟩
    | literal =>
      exact ⟨fun _ => ⟨_, rfl, (List.append_nil _).symm, rfl, rfl⟩,
        fun h => absurd h (Nat.not_lt_zero _)⟩

/-- A string is written as a hit in the tables or as its characters, and the tables go on with it.
-/
theorem writes_stringAt (f : Encoder.Context) (ctx : ValueCtx) (value : String) :
    Writes ExiError.outputFull
      (Encoder.stringAt f.values ctx value (Encoder.hit f.coding f.values ctx value)) f
      { f with values := afterWritten f.values f.coding ctx value }
      (stringBits f.values f.coding ctx value) := by
  unfold stringBits afterWritten
  cases Encoder.hit f.coding f.values ctx value with
  | «local» idx =>
    exact (Encoder.puts_prim (puts_writeUint 0)).seq
      (Encoder.puts_prim (BitWriter.puts_writeBits idx _)) f
  | global idx =>
    exact (Encoder.puts_prim (puts_writeUint 1)).seq
      (Encoder.puts_prim (BitWriter.puts_writeBits idx _)) f
  | miss =>
    have hwrites := (Encoder.puts_prim (puts_writeUint (UInt64.ofNat value.length + 2)) f).seq
      ((Encoder.puts_prim (puts_writeChars value.toList) f).seq (writes_remember f ctx value))
    rw [List.append_nil] at hwrites
    cases hcoding : f.coding with
    | literal =>
      rw [hcoding] at hwrites
      exact hwrites
    | referenced =>
      rw [hcoding] at hwrites
      exact hwrites

theorem writes_string {f : Encoder.Context} {ctx : ValueCtx} {value : String} {lengths : Lengths}
    (h : lengths.admits value.length = true) :
    Writes ExiError.outputFull (Encoder.string ctx value lengths) f
      { f with values := afterWritten f.values f.coding ctx value }
      (stringBits f.values f.coding ctx value) := by
  intro e hf
  have hstring : Encoder.string ctx value lengths e
      = Encoder.stringAt e.values ctx value (Encoder.hit e.coding e.values ctx value) e := by
    unfold Encoder.string
    rw [Lengths.check_of_admits h]
    rfl
  rw [hstring]
  subst hf
  exact writes_stringAt (Sink.frame e) ctx value e rfl

/-! ## Reading

The length of a string is also its tag: the first two values stand for a hit. Below each of the
ways of writing is read back from a table that is in step. -/

/-- What follows may look at the decoder, whose table is that of its context. -/
theorem reads_get {α : Type} {k : Decoder → EStateM ExiError Decoder α} {f f' : Decoder.Context}
    {a : α} {bits : List Bool} (h : ∀ d : Decoder, d.values = f.values → Reads (k d) f f' a bits) :
    Reads (get >>= k) f f' a bits := by
  intro d more hf hrest
  exact h d (congrArg Decoder.Context.values hf) d more hf hrest

theorem reads_resolve {f : Decoder.Context} {found : Option String} {value : String}
    (h : found = some value) : Reads (Decoder.resolve found) f f value [] := by
  rw [h]
  exact Reads.pure

theorem reads_insert (f : Decoder.Context) (ctx : ValueCtx) (value : String) :
    Reads (do
        modify fun d => { d with values := d.values.insert ctx value }
        return value : EStateM ExiError Decoder String)
      f { f with values := f.values.insert ctx value } value [] := by
  intro d more hf hrest
  subst hf
  exact ⟨_, rfl, hrest, rfl⟩

theorem reads_local {f : Decoder.Context} {ctx : ValueCtx} {value : String} {idx : Nat}
    (lengths : Lengths) (h : f.values.getLocal ctx idx = some value)
    (hlt : idx < f.values.localLen ctx) :
    Reads (Decoder.stringInner ctx lengths) f f value
      (uintBits 0 ++ bitsOf (f.values.localIndexWidth ctx) idx) := by
  refine (Decoder.gets_prim (gets_readUint 0) f).bind ?_
  rw [if_pos (by rfl)]
  refine reads_get fun d hd => ?_
  rw [hd, ← List.append_nil (bitsOf _ _)]
  refine (Decoder.gets_prim (BitReader.gets_readBits (lt_two_pow_bitWidth hlt)) f).bind ?_
  refine reads_get fun d' hd' => ?_
  rw [hd']
  exact reads_resolve h

theorem reads_global {f : Decoder.Context} {ctx : ValueCtx} {value : String} {idx : Nat}
    (lengths : Lengths) (h : f.values.getGlobal idx = some value)
    (hlt : idx < f.values.globals.length) :
    Reads (Decoder.stringInner ctx lengths) f f value
      (uintBits 1 ++ bitsOf f.values.globalIndexWidth idx) := by
  refine (Decoder.gets_prim (gets_readUint 1) f).bind ?_
  rw [if_neg (by decide), if_pos (by rfl)]
  refine reads_get fun d hd => ?_
  rw [hd, ← List.append_nil (bitsOf _ _)]
  refine (Decoder.gets_prim (BitReader.gets_readBits (lt_two_pow_bitWidth hlt)) f).bind ?_
  refine reads_get fun d' hd' => ?_
  rw [hd']
  exact reads_resolve h

/-- A value in full is read from any table, and added to it. -/
theorem reads_literal {f : Decoder.Context} {ctx : ValueCtx} {value : String} {lengths : Lengths}
    (hlt : value.length < 2 ^ 63) (hmax : value.length ≤ lengths.max) :
    Reads (Decoder.stringInner ctx lengths) f
      { f with values := f.values.insert ctx value } value
      (uintBits (UInt64.ofNat value.length + 2) ++ charBits value.toList) := by
  have hmarker : (UInt64.ofNat value.length + 2).toNat = value.length + 2 := by
    rw [UInt64.toNat_add, UInt64.toNat_ofNat_of_lt' (show _ < 2 ^ 64 by omega)]
    exact Nat.mod_eq_of_lt (by
      show value.length + 2 < 2 ^ 64
      omega)
  refine (Decoder.gets_prim (gets_readUint _) f).bind ?_
  rw [hmarker, if_neg (by omega), if_neg (by omega)]
  dsimp only
  rw [Nat.add_sub_cancel, if_neg (by omega), ← List.append_nil (charBits _)]
  have hlength : value.length = value.toList.length := String.length_toList.symm
  rw [hlength]
  refine (Decoder.gets_prim (gets_readChars value.toList) f).bind ?_
  rw [String.ofList_toList]
  exact reads_insert f ctx value

theorem le_max_of_admits {l : Lengths} {len : Nat} (h : l.admits len = true) : len ≤ l.max := by
  unfold Lengths.admits at h
  rw [Bool.and_eq_true, decide_eq_true_eq, decide_eq_true_eq] at h
  exact h.2

/-- What the facets admit passes the check behind `stringInner`. -/
theorem reads_string {f f' : Decoder.Context} {ctx : ValueCtx} {value : String}
    {lengths : Lengths} {bits : List Bool} (hinner : Reads (Decoder.stringInner ctx lengths) f f'
      value bits) (h : lengths.admits value.length = true) :
    Reads (Decoder.string ctx lengths) f f' value bits := by
  refine hinner.map ?_
  rw [Lengths.check_of_admits h]
  rfl

/-- The decoder's table behind a value. -/
def afterRead (values : ValueTable) (coding : ValueCoding) (ctx : ValueCtx) (value : String) :
    ValueTable :=
  match coding with
  | .referenced => afterWritten values .referenced ctx value
  | .literal => values.insert ctx value

/-- What the decoder's table has to be where the encoder's is `values`. -/
structure InStep (coding : ValueCoding) (values table : ValueTable) : Prop where
  written : values.Coherent
  read : table.Coherent
  same : coding = .referenced → table = values

theorem InStep.after {coding : ValueCoding} {values table : ValueTable}
    (h : InStep coding values table) (ctx : ValueCtx) (value : String) :
    InStep coding (afterWritten values coding ctx value) (afterRead table coding ctx value) := by
  have hwritten : (afterWritten values coding ctx value).Coherent := by
    unfold afterWritten
    split
    · exact h.written.insert ctx value
    · exact h.written
  refine ⟨hwritten, ?_, ?_⟩
  · cases coding with
    | referenced =>
      rw [h.same rfl]
      exact hwritten
    | literal => exact h.read.insert ctx value
  · intro hcoding
    subst hcoding
    rw [h.same rfl]
    rfl

/-- A decoder whose table is in step reads the value, whether it was written in full or not. -/
theorem reads_written {coding : ValueCoding} {values : ValueTable} {f : Decoder.Context}
    (hstep : InStep coding values f.values) (s : StringValue)
    (h : s.lengths.admits s.value.length = true) :
    Reads (Decoder.string s.ctx s.lengths) f
      { f with values := afterRead f.values coding s.ctx s.value } s.value
      (stringBits values coding s.ctx s.value) := by
  refine reads_string ?_ h
  cases coding with
  | literal => exact reads_literal s.length_lt (le_max_of_admits h)
  | referenced =>
    rw [← hstep.same rfl]
    unfold afterRead stringBits afterWritten Encoder.hit
    dsimp only
    cases hfind : f.values.find s.ctx s.value with
    | «local» idx =>
      obtain ⟨hget, hidx⟩ := ValueTable.find_local hstep.read hfind
      exact reads_local s.lengths hget hidx
    | global idx =>
      obtain ⟨hget, hidx⟩ := ValueTable.find_global hstep.read hfind
      exact reads_global s.lengths hget hidx
    | miss => exact reads_literal s.length_lt (le_max_of_admits h)

/-! ## One after another

The invariant is that the tables agree where references are written. It is kept by each string,
and carried along the list by induction. -/

/-- The strings, one after another. -/
def writeStrings : List StringValue → EStateM ExiError Encoder Unit
  | [] => pure ()
  | s :: ss => do
      Encoder.string s.ctx s.value s.lengths
      writeStrings ss

/-- Strings in these contexts and under these facets, one after another. -/
def readStrings : List (ValueCtx × Lengths) → EStateM ExiError Decoder (List String)
  | [] => pure []
  | (ctx, lengths) :: rest => do
      let value ← Decoder.string ctx lengths
      let values ← readStrings rest
      return value :: values

/-- What the reader of a string has to know. -/
def StringValue.facets (s : StringValue) : ValueCtx × Lengths := (s.ctx, s.lengths)

/-- The encoder's table behind the strings. -/
def allWritten (coding : ValueCoding) : List StringValue → ValueTable → ValueTable
  | [], values => values
  | s :: ss, values => allWritten coding ss (afterWritten values coding s.ctx s.value)

/-- The decoder's. -/
def allRead (coding : ValueCoding) : List StringValue → ValueTable → ValueTable
  | [], values => values
  | s :: ss, values => allRead coding ss (afterRead values coding s.ctx s.value)

/-- What the strings are written as. -/
def stringsBits (coding : ValueCoding) : List StringValue → ValueTable → List Bool
  | [], _ => []
  | s :: ss, values =>
      stringBits values coding s.ctx s.value
        ++ stringsBits coding ss (afterWritten values coding s.ctx s.value)

theorem writes_strings {ss : List StringValue}
    (h : ∀ s ∈ ss, s.lengths.admits s.value.length = true) (f : Encoder.Context) :
    Writes ExiError.outputFull (writeStrings ss) f
      { f with values := allWritten f.coding ss f.values } (stringsBits f.coding ss f.values) := by
  induction ss generalizing f with
  | nil => exact Writes.pure
  | cons s ss ih =>
    exact (writes_string (h s List.mem_cons_self)).seq
      (ih (fun s' hs' => h s' (List.mem_cons_of_mem s hs'))
        { f with values := afterWritten f.values f.coding s.ctx s.value })

theorem reads_strings {ss : List StringValue}
    (h : ∀ s ∈ ss, s.lengths.admits s.value.length = true) {coding : ValueCoding}
    {values : ValueTable} (f : Decoder.Context) (hstep : InStep coding values f.values) :
    Reads (readStrings (ss.map StringValue.facets)) f
      { f with values := allRead coding ss f.values } (ss.map StringValue.value)
      (stringsBits coding ss values) := by
  induction ss generalizing values f with
  | nil => exact Reads.pure
  | cons s ss ih =>
    refine (reads_written hstep s (h s List.mem_cons_self)).bind ?_
    exact (ih (fun s' hs' => h s' (List.mem_cons_of_mem s hs'))
      { f with values := afterRead f.values coding s.ctx s.value } (hstep.after s.ctx s.value)).map
      rfl

theorem InStep.behind {coding : ValueCoding} (ss : List StringValue) {values table : ValueTable}
    (h : InStep coding values table) :
    InStep coding (allWritten coding ss values) (allRead coding ss table) := by
  induction ss generalizing values table with
  | nil => exact h
  | cons s ss ih => exact ih (h.after s.ctx s.value)

theorem stringsBits_append (coding : ValueCoding) (pre suf : List StringValue)
    (values : ValueTable) :
    stringsBits coding (pre ++ suf) values
      = stringsBits coding pre values ++ stringsBits coding suf (allWritten coding pre values) := by
  induction pre generalizing values with
  | nil => rfl
  | cons s pre ih =>
    show _ ++ stringsBits coding (pre ++ suf) _ = _ ++ _ ++ _
    rw [ih, List.append_assoc]
    rfl

theorem inStep_new (coding : ValueCoding) : InStep coding .new .new :=
  ⟨ValueTable.coherent_new, ValueTable.coherent_new, fun _ => rfl⟩

/-- A reader over a finished stream reads the strings at its front, and its table is in step. -/
theorem reads_front {coding : ValueCoding} {ss : List StringValue} {buf : List UInt8}
    {more : List Bool} (h : ∀ s ∈ ss, s.lengths.admits s.value.length = true)
    (hrest : Source.rest (Decoder.new buf) = stringsBits coding ss .new ++ more) :
    ∃ d, readStrings (ss.map StringValue.facets) (.new buf) = .ok (ss.map StringValue.value) d
      ∧ InStep coding (allWritten coding ss .new) d.values ∧ Source.rest d = more := by
  obtain ⟨d, hread, hmore, hframe⟩ := reads_strings h (Source.frame (Decoder.new buf))
    (inStep_new coding) _ _ rfl hrest
  have hvalues : d.values = allRead coding ss .new := congrArg Decoder.Context.values hframe
  refine ⟨d, hread, ?_, hmore⟩
  rw [hvalues]
  exact (inStep_new coding).behind ss

/-- **Strings are read back in either coding**, whatever the buffer held, as long as there is room
for their bits, and else they are refused; and behind every one of them the tables of both sides are
coherent and, where references are written, equal. -/
theorem strings_roundtrip (ss : List StringValue)
    (h : ∀ s ∈ ss, s.lengths.admits s.value.length = true) (coding : ValueCoding) :
    ∃ size : Nat, ∀ buf : List UInt8,
      (8 * buf.length < size →
        ∃ e, writeStrings ss (.withValueCoding buf coding) = .error .outputFull e)
      ∧ (size ≤ 8 * buf.length → ∃ e len e' d d',
        writeStrings ss (.withValueCoding buf coding) = .ok () e ∧ e.finish = .ok len e'
        ∧ readStrings (ss.map StringValue.facets) (.new (e'.bits.buf.take len))
            = .ok (ss.map StringValue.value) d
        ∧ d.finish = .ok () d'
        ∧ ∀ pre suf, ss = pre ++ suf → ∃ e₁ d₁,
            writeStrings pre (.withValueCoding buf coding) = .ok () e₁
            ∧ readStrings (pre.map StringValue.facets) (.new (e'.bits.buf.take len))
                = .ok (pre.map StringValue.value) d₁
            ∧ e₁.values.Coherent ∧ d₁.values.Coherent
            ∧ (coding = .referenced → d₁.values = e₁.values)) := by
  refine ⟨(stringsBits coding ss .new).length, fun buf => ⟨fun hfull => ?_, fun hroom => ?_⟩⟩
  -- too little room: the encoder says so
  · obtain ⟨e, hwrite, -⟩ := (writes_strings h (Sink.frame (Encoder.withValueCoding buf coding))
      _ rfl).2 hfull
    exact ⟨e, hwrite⟩
  -- what has room as a whole has room in every part
  have hwrites : ∀ pre suf, ss = pre ++ suf → ∃ e,
      writeStrings pre (.withValueCoding buf coding) = .ok () e
        ∧ Sink.written e = stringsBits coding pre .new
        ∧ e.values = allWritten coding pre .new := by
    intro pre suf hsplit
    have hpre : ∀ s ∈ pre, s.lengths.admits s.value.length = true := fun s hs =>
      h s (hsplit ▸ List.mem_append_left suf hs)
    have hlen : (stringsBits coding pre .new).length ≤ (stringsBits coding ss .new).length := by
      rw [hsplit, stringsBits_append, List.length_append]
      exact Nat.le_add_right ..
    obtain ⟨e, hwrite, hwritten, -, hframe⟩ := (writes_strings hpre
      (Sink.frame (Encoder.withValueCoding buf coding)) _ rfl).1 (by
        show (stringsBits coding pre .new).length ≤ 8 * buf.length - 0
        exact Nat.le_trans hlen hroom)
    exact ⟨e, hwrite, hwritten, congrArg Encoder.Context.values hframe⟩
  -- enough of it: the strings are written, the stream is finished, and a decoder reads them from
  -- its front
  obtain ⟨e, hwrite, hwritten, -⟩ := hwrites ss [] (List.append_nil ss).symm
  obtain ⟨len, e', hfinish, -, hrest⟩ := e.finish_eq
  rw [hwritten] at hrest
  obtain ⟨d, hread, -, hmore⟩ := reads_front h hrest
  obtain ⟨d', hend⟩ := Decoder.finish_of_padding hmore
  refine ⟨e, len, e', d, d', hwrite, hfinish, hread, hend, fun pre suf hsplit => ?_⟩
  -- the same at any point in between, where the tables agree
  obtain ⟨e₁, hwrite₁, -, hvalues⟩ := hwrites pre suf hsplit
  have hpre : ∀ s ∈ pre, s.lengths.admits s.value.length = true := fun s hs =>
    h s (hsplit ▸ List.mem_append_left suf hs)
  have hfront : Source.rest (Decoder.new (e'.bits.buf.take len))
      = stringsBits coding pre .new ++ (stringsBits coding suf (allWritten coding pre .new)
        ++ List.replicate e.bits.padding false) := by
    rw [hrest, hsplit, stringsBits_append, List.append_assoc]
  obtain ⟨d₁, hread₁, hstep, -⟩ := reads_front hpre hfront
  rw [← hvalues] at hstep
  exact ⟨e₁, d₁, hwrite₁, hread₁, hstep.written, hstep.read, hstep.same⟩

/-- One string under two names, twice each: the second context finds it in the document's values,
and does not take it into its own. -/
theorem strings_roundtrip_shared :
    ∃ size : Nat, ∀ buf : List UInt8, size ≤ 8 * buf.length →
      ∃ e len e' d d',
        writeStrings ([⟨⟨0⟩, "a", ⟨0, 4⟩, by decide⟩, ⟨⟨0⟩, "a", ⟨0, 4⟩, by decide⟩,
            ⟨⟨1⟩, "a", ⟨0, 4⟩, by decide⟩, ⟨⟨1⟩, "a", ⟨0, 4⟩, by decide⟩] : List StringValue)
          (.withValueCoding buf .referenced) = .ok () e ∧ e.finish = .ok len e'
        ∧ readStrings [(⟨0⟩, ⟨0, 4⟩), (⟨0⟩, ⟨0, 4⟩), (⟨1⟩, ⟨0, 4⟩), (⟨1⟩, ⟨0, 4⟩)]
            (.new (e'.bits.buf.take len)) = .ok ["a", "a", "a", "a"] d
        ∧ d.finish = .ok () d' := by
  obtain ⟨size, hsize⟩ := strings_roundtrip
    [⟨⟨0⟩, "a", ⟨0, 4⟩, by decide⟩, ⟨⟨0⟩, "a", ⟨0, 4⟩, by decide⟩,
      ⟨⟨1⟩, "a", ⟨0, 4⟩, by decide⟩, ⟨⟨1⟩, "a", ⟨0, 4⟩, by decide⟩] (by decide) .referenced
  refine ⟨size, fun buf hbuf => ?_⟩
  obtain ⟨e, len, e', d, d', hwrite, hfinish, hread, hend, -⟩ := (hsize buf).2 hbuf
  exact ⟨e, len, e', d, d', hwrite, hfinish, hread, hend⟩

end Iso15118.Exi
