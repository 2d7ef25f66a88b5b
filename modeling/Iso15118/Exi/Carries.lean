import Iso15118.Exi.Strings

/-!
# What a writer and a reader pass on

Most of what is written does not care about the state of the two coders. Strings do, for their
tables, and elements do, for their depth. `Carries` is about a writer and a reader that are in step
in both: whatever coding and whatever tables, the reader gets the value back from where it was
written, and they are in step again.

Writers and readers of this kind compose (**`Carries.bind`**), and a whole document is one of them
(**`Carries.document`**).
-/

namespace Iso15118.Exi

open Iso15118.Lib

/-- Both `depth` elements deep, and the tables in step. -/
structure Synced (depth : Nat) (f : Encoder.Context) (g : Decoder.Context) : Prop where
  written : f.depth = depth
  read : g.depth = depth
  tables : InStep f.coding f.values g.values

/-- From `depth` to `depth'` elements deep, `write` puts out what `read` gets `a` back from. -/
def Carries {α : Type} (depth depth' : Nat) (write : EStateM ExiError Encoder Unit)
    (read : EStateM ExiError Decoder α) (a : α) : Prop :=
  ∀ f : Encoder.Context, f.depth = depth → ∃ bits f', Writes ExiError.outputFull write f f' bits
    ∧ f'.depth = depth'
    ∧ ∀ g : Decoder.Context, Synced depth f g →
      ∃ g', Reads read g g' a bits ∧ g'.buf = g.buf ∧ Synced depth' f' g'

section Carries

variable {α β : Type} {k k₁ k₂ : Nat} {write write' : EStateM ExiError Encoder Unit}
  {read : EStateM ExiError Decoder α} {next : α → EStateM ExiError Decoder β} {a : α} {b : β}

theorem Carries.pure : Carries k k (Pure.pure ()) (Pure.pure a) a :=
  fun f hf => ⟨[], f, Writes.pure, hf, fun g hg => ⟨g, Reads.pure, rfl, hg⟩⟩

/-- One after the other. -/
theorem Carries.bind (h : Carries k k₁ write read a) (h' : Carries k₁ k₂ write' (next a) b) :
    Carries k k₂ (write >>= fun _ => write') (read >>= next) b := by
  intro f hf
  obtain ⟨bits, f₁, hwrites, hf₁, hreads⟩ := h f hf
  obtain ⟨bits', f₂, hwrites', hf₂, hreads'⟩ := h' f₁ hf₁
  refine ⟨bits ++ bits', f₂, hwrites.seq hwrites', hf₂, fun g hg => ?_⟩
  obtain ⟨g₁, hread, hbuf, hg₁⟩ := hreads g hg
  obtain ⟨g₂, hread', hbuf', hg₂⟩ := hreads' g₁ hg₁
  exact ⟨g₂, hread.bind hread', hbuf'.trans hbuf, hg₂⟩

/-- A reader that only makes something of what it has read. -/
theorem Carries.map (h : Carries k k₁ write read a) (h' : next a = Pure.pure b) :
    Carries k k₁ write (read >>= next) b := by
  intro f hf
  obtain ⟨bits, f₁, hwrites, hf₁, hreads⟩ := h f hf
  refine ⟨bits, f₁, hwrites, hf₁, fun g hg => ?_⟩
  obtain ⟨g₁, hread, hbuf, hg₁⟩ := hreads g hg
  exact ⟨g₁, hread.map h', hbuf, hg₁⟩

/-- What cares about neither tables nor depth. -/
theorem Carries.of_gets {bits : List Bool} (hputs : Puts ExiError.outputFull write bits)
    (hgets : Gets read a bits) : Carries k k write read a :=
  fun f hf => ⟨bits, f, hputs f, hf, fun g hg => ⟨g, hgets g, rfl, hg⟩⟩

end Carries

/-! ## What the coders are made of

One lemma for each operation a document's codec is written with. A codec's own lemma then follows
its text, line by line. -/

/-- An event code is read by whoever expects it. -/
theorem carries_event {k code width : Nat} (h : code < 2 ^ width) :
    Carries k k (Encoder.event code width) (Decoder.event width) code :=
  .of_gets (Encoder.puts_prim (BitWriter.puts_writeBits code width))
    (Decoder.gets_prim (BitReader.gets_readBits h))

theorem carries_expectEvent {k code width : Nat} (h : code < 2 ^ width) :
    Carries k k (Encoder.event code width) (Decoder.expectEvent code width) () := by
  refine (carries_event h).map ?_
  rw [if_pos rfl]

/-- Going one element down is carried as long as there is depth left. -/
theorem carries_enter {k : Nat} (h : k < maxDepth) :
    Carries k (k + 1) Encoder.enter Decoder.enter () := by
  have hdeeper : deeper k = k + 1 := Nat.min_eq_left (by
    unfold maxDepth at h
    omega)
  intro f hf
  refine ⟨[], { f with depth := k + 1 }, ?_, rfl, fun g hg => ?_⟩
  · intro e he
    have hdepth : e.depth = k := (congrArg Encoder.Context.depth he).trans hf
    have henter : Encoder.enter e = .ok () { e with depth := deeper e.depth } := by
      show (if deeper e.depth > maxDepth then _ else _ : EStateM ExiError Encoder Unit) _ = _
      rw [if_neg (by rw [hdepth, hdeeper]; omega)]
      rfl
    rw [hdepth, hdeeper] at henter
    refine ⟨fun _ => ⟨_, henter, (List.append_nil _).symm, rfl, ?_⟩,
      fun hfull => absurd hfull (Nat.not_lt_zero _)⟩
    rw [← he]
    rfl
  · refine ⟨{ g with depth := k + 1 }, ?_, rfl, rfl, rfl, hg.tables⟩
    intro d more hd hrest
    have hdepth : d.depth = k := (congrArg Decoder.Context.depth hd).trans hg.read
    have henter : Decoder.enter d = .ok () { d with depth := deeper d.depth } := by
      show (if deeper d.depth > maxDepth then _ else _ : EStateM ExiError Decoder Unit) _ = _
      rw [if_neg (by rw [hdepth, hdeeper]; omega)]
      rfl
    rw [hdepth, hdeeper] at henter
    refine ⟨_, henter, hrest, ?_⟩
    rw [← hd]
    rfl

/-- Coming back up is carried from every depth but the top. -/
theorem carries_leave {k : Nat} : Carries (k + 1) k Encoder.leave Decoder.leave () := by
  intro f hf
  refine ⟨[], { f with depth := k }, ?_, rfl, fun g hg => ?_⟩
  · intro e he
    have hdepth : e.depth = k + 1 := (congrArg Encoder.Context.depth he).trans hf
    have hleave : Encoder.leave e = .ok () { e with depth := k } := by
      show EStateM.Result.ok () { e with depth := e.depth - 1 } = _
      rw [hdepth]
      rfl
    refine ⟨fun _ => ⟨_, hleave, (List.append_nil _).symm, rfl, ?_⟩,
      fun hfull => absurd hfull (Nat.not_lt_zero _)⟩
    rw [← he]
    rfl
  · refine ⟨{ g with depth := k }, ?_, rfl, rfl, rfl, hg.tables⟩
    intro d more hd hrest
    have hdepth : d.depth = k + 1 := (congrArg Decoder.Context.depth hd).trans hg.read
    have hleave : Decoder.leave d = .ok () { d with depth := k } := by
      show EStateM.Result.ok () { d with depth := d.depth - 1 } = _
      rw [hdepth]
      rfl
    refine ⟨_, hleave, hrest, ?_⟩
    rw [← hd]
    rfl

/-- A string its facets admit. -/
theorem carries_string {k : Nat} (s : StringValue) (h : s.lengths.admits s.value.length = true) :
    Carries k k (Encoder.string s.ctx s.value s.lengths) (Decoder.string s.ctx s.lengths)
      s.value := by
  intro f hf
  refine ⟨_, _, writes_string h, hf, fun g hg => ?_⟩
  exact ⟨_, reads_written hg.tables s h, rfl, hf, hg.read, hg.tables.after s.ctx s.value⟩

/-! ## Documents

A document is what is carried from a new encoder to a new decoder, between the header and the end
of the last byte. Room in the buffer is the only thing that can be missing. -/

/-- What an encoder writes into a buffer, as far as it gets. -/
def encodeInto (write : EStateM ExiError Encoder Unit) (buf : List UInt8) (coding : ValueCoding) :
    Except ExiError (List UInt8) :=
  match (write >>= fun _ => Encoder.finish) (.withValueCoding buf coding) with
  | .ok len e => .ok (e.bits.buf.take len)
  | .error x _ => .error x

/-- What a decoder makes of all of the bytes. -/
def decodeFrom {α : Type} (read : EStateM ExiError Decoder α) (bytes : List UInt8) :
    Except ExiError α :=
  match (read >>= fun a => Decoder.finish >>= fun _ => Pure.pure a) (.new bytes) with
  | .ok a _ => .ok a
  | .error x _ => .error x

/-- Wherever there is room for it, `a` is encoded, and decoded again; elsewhere the encoder says
that there is none. -/
def ReadBack {α : Type} (encode : List UInt8 → Except ExiError (List UInt8))
    (decode : List UInt8 → Except ExiError α) (a : α) : Prop :=
  ∃ size : Nat, ∀ buf : List UInt8,
    (8 * buf.length < size → encode buf = .error .outputFull)
    ∧ (size ≤ 8 * buf.length → ∃ bytes, encode buf = .ok bytes ∧ decode bytes = .ok a)

/-- A document that carries its value is read back. -/
theorem Carries.document {α : Type} {write : EStateM ExiError Encoder Unit}
    {read : EStateM ExiError Decoder α} {a : α} (h : Carries 0 0 write read a)
    (coding : ValueCoding) :
    ReadBack (encodeInto write · coding) (decodeFrom read) a := by
  obtain ⟨bits, f', hwrites, -, hreads⟩ := h ⟨.new, coding, 0⟩ rfl
  refine ⟨bits.length, fun buf => ⟨fun hfull => ?_, fun hroom => ?_⟩⟩
  · obtain ⟨e, hwrite, -⟩ := (hwrites (.withValueCoding buf coding) rfl).2 hfull
    show encodeInto write buf coding = _
    unfold encodeInto
    rw [show (write >>= fun _ => Encoder.finish) (.withValueCoding buf coding)
      = .error .outputFull e by
        show EStateM.bind write _ _ = _
        rw [EStateM.bind, hwrite]]
  · obtain ⟨e, hwrite, hwritten, -⟩ := (hwrites (.withValueCoding buf coding) rfl).1 hroom
    obtain ⟨len, e', hfinish, -, hrest⟩ := e.finish_eq
    refine ⟨e'.bits.buf.take len, ?_, ?_⟩
    · show encodeInto write buf coding = _
      unfold encodeInto
      rw [show (write >>= fun _ => Encoder.finish) (.withValueCoding buf coding) = .ok len e' from
        bind_ok.mpr ⟨(), e, hwrite, hfinish⟩]
    · obtain ⟨g', hread, -⟩ := hreads ⟨e'.bits.buf.take len, .new, 0⟩
        ⟨rfl, rfl, inStep_new coding⟩
      rw [hwritten] at hrest
      obtain ⟨d, hok, hmore, -⟩ := hread (.new (e'.bits.buf.take len)) _ rfl hrest
      obtain ⟨d', hend⟩ := Decoder.finish_of_padding hmore
      unfold decodeFrom
      rw [show (read >>= fun a => Decoder.finish >>= fun _ => Pure.pure a)
        (.new (e'.bits.buf.take len)) = .ok a d' from
          bind_ok.mpr ⟨a, d, hok, bind_ok.mpr ⟨(), d', hend, rfl⟩⟩]

/-- What is decoded has been read from the front of the bytes. -/
theorem read_of_decodeFrom {α : Type} {read : EStateM ExiError Decoder α} {bytes : List UInt8}
    {a : α} (hok : decodeFrom read bytes = .ok a) : ∃ d, read (.new bytes) = .ok a d := by
  unfold decodeFrom at hok
  split at hok
  · next a' d hread =>
    cases hok
    obtain ⟨a'', d₁, hread', hend⟩ := bind_ok.mp hread
    obtain ⟨u, d₂, -, hpure⟩ := bind_ok.mp hend
    cases hpure
    exact ⟨d₁, hread'⟩
  · cases hok

/-- What is decoded is what its reader yields. -/
theorem yields_decodeFrom {α : Type} {read : EStateM ExiError Decoder α} {P : α → Prop}
    (h : Yields read P) {bytes : List UInt8} {a : α} (hok : decodeFrom read bytes = .ok a) :
    P a := by
  obtain ⟨d, hread⟩ := read_of_decodeFrom hok
  exact h _ _ _ hread

end Iso15118.Exi
