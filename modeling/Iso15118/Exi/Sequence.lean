import Iso15118.Exi.Codec

/-!
# Event codes of a content model

The content of an element is a list of items, and where its coder stands in that list is all it
needs to know to name the next one: a `Shape` holds the sums and the widths of a type, and one
writer and one reader serve every type with them.

* `SeqReader.step` is what one event code does to a reader; `SeqReader.step_cases` says everything
  it can do.
* `Takes` is a run of such steps, and `reads_takes` reads one off a bit stream.
-/

namespace Iso15118.Exi

open Iso15118.Lib

/-- `BELOW_MIN_WIDTH`. -/
def belowMinWidth : Nat := 1

/-- `SIMPLE_WIDTH`. -/
def simpleWidth : Nat := 1

/-- `Shape`: the static event-code arithmetic of one content model. -/
structure Shape where
  prodBefore : List Nat
  width : List Nat
  repeatWidth : List Nat
  min : List Nat
  max : List Nat
  deriving DecidableEq, Repr

namespace Shape

/-- `Shape::len`. -/
def len (s : Shape) : Nat := s.min.length

/-- `prod_before[i]`. -/
def before (s : Shape) (i : Nat) : Nat := s.prodBefore.getD i 0

/-- `width[i]`. -/
def widthAt (s : Shape) (i : Nat) : Nat := s.width.getD i 0

/-- `repeat_width[j]`. -/
def repeatWidthAt (s : Shape) (j : Nat) : Nat := s.repeatWidth.getD j 0

/-- `min[j]`. -/
def minAt (s : Shape) (j : Nat) : Nat := s.min.getD j 0

/-- `max[j]`. -/
def maxAt (s : Shape) (j : Nat) : Nat := s.max.getD j 0

/-- `Shape::total`. -/
def total (s : Shape) : Nat := s.before (s.prodBefore.length - 1)

/-- `Shape::branches`. -/
def branches (s : Shape) (j : Nat) : Nat := s.before (j + 1) - s.before j

/-- The sums grow, up to the total. -/
def Sorted (s : Shape) : Prop :=
  (∀ i k, i ≤ k → k ≤ s.len → s.before i ≤ s.before k) ∧ s.before s.len = s.total

/-- Whether another occurrence of item `j` is open behind `count` of them, as `base`. -/
def baseAfter (s : Shape) (j count : Nat) : Nat := if count < s.maxAt j then 1 else 0

/-- The width behind `count` occurrences of item `j`. -/
def widthAfter (s : Shape) (j count : Nat) : Nat :=
  if count < s.maxAt j then
    if count < s.minAt j then belowMinWidth else s.repeatWidthAt j
  else s.widthAt (j + 1)

end Shape

/-- `Step::Item`: an occurrence of an item. -/
structure Occurrence where
  index : Nat
  branch : Nat
  first : Bool
  deriving DecidableEq, Repr

/-- `Step`. -/
inductive Step where
  | item (o : Occurrence)
  | ended
  deriving DecidableEq, Repr

/-! ## The writer

The code of an occurrence is computed from the sums of the shape. The writer remembers three
numbers of its position: the next item, the sum that codes are counted from, and their width. -/

/-- `SeqWriter`. -/
structure SeqWriter where
  shape : Shape
  pos : Nat
  base : Nat
  width : Nat
  deriving DecidableEq, Repr

namespace SeqWriter

/-- `SeqWriter::new`. -/
def new (shape : Shape) : SeqWriter := ⟨shape, 0, 0, shape.widthAt 0⟩

/-- The event code of occurrence `c` of item `j` and its width, as `SeqWriter::start_branch` has
them. -/
def codeOf (w : SeqWriter) (j c branch : Nat) : Nat × Nat :=
  if c = 0 then (w.base + w.shape.before j - w.shape.before w.pos + branch, w.width)
  else if c < w.shape.minAt j then (branch, belowMinWidth)
  else (branch, w.shape.repeatWidthAt j)

/-- One of the later occurrences is written in the width of the state behind those before it. -/
theorem codeOf_again {w : SeqWriter} {j c branch : Nat} (hc : c ≠ 0) (hmax : c < w.shape.maxAt j) :
    w.codeOf j c branch = (branch, w.shape.widthAfter j c) := by
  unfold codeOf Shape.widthAfter
  rw [if_neg hc, if_pos hmax]
  split
  · rfl
  · rfl

/-- `SeqWriter::start_branch`. -/
def startBranch (w : SeqWriter) (j c branch : Nat) : EStateM ExiError Encoder Unit :=
  Encoder.event (w.codeOf j c branch).1 (w.codeOf j c branch).2

/-- `SeqWriter::start`. -/
def start (w : SeqWriter) (j c : Nat) : EStateM ExiError Encoder Unit := w.startBranch j c 0

/-- `SeqWriter::finish`. -/
def finish (w : SeqWriter) (j count : Nat) : SeqWriter :=
  { w with
    pos := j + 1
    base := w.shape.baseAfter j count
    width := w.shape.widthAfter j count }

/-- The event code of the end and its width. -/
def endCode (w : SeqWriter) : Nat × Nat :=
  (w.base + w.shape.total - w.shape.before w.pos, w.width)

/-- `SeqWriter::end`. -/
def close (w : SeqWriter) : EStateM ExiError Encoder Unit :=
  Encoder.event w.endCode.1 w.endCode.2

end SeqWriter

/-! ## The reader

The reader turns a code into an item by walking along the items behind its position, and stops at
one that is required. `step` is one code without the stream it is read from; `step_cases` takes
it apart once. -/

/-- `SeqReader`. -/
structure SeqReader where
  shape : Shape
  pos : Nat
  base : Nat
  width : Nat
  repeating : Nat
  count : Nat
  repeatingBranches : Nat
  belowMin : Bool
  deriving DecidableEq, Repr

namespace SeqReader

/-- `SeqReader::new`. -/
def new (shape : Shape) : SeqReader where
  shape := shape
  pos := 0
  base := 0
  width := shape.widthAt 0
  repeating := 0
  count := 0
  repeatingBranches := 1
  belowMin := false

/-- `SeqReader::advance_repeat`. -/
def advanceRepeat (r : SeqReader) (j : Nat) : SeqReader :=
  { r with
    pos := j + 1
    belowMin := r.count < r.shape.minAt j
    base := r.shape.baseAfter j r.count
    width := r.shape.widthAfter j r.count }

/-- The loop of `SeqReader::next` that finds the item a code names, `n` items before the end: not
one past a required item. -/
def locate (s : Shape) (abs : Nat) : Nat → Nat → Option Nat
  | 0, _ => none
  | n + 1, index =>
      if s.before (index + 1) ≤ abs then
        if s.minAt index > 0 then none else locate s abs n (index + 1)
      else some index

/-- `SeqReader::next` behind the event code it reads. -/
def step (r : SeqReader) (code : Nat) : Except ExiError (Step × SeqReader) :=
  if r.base ≠ 0 ∧ code < r.repeatingBranches then
    .ok (.item ⟨r.repeating, code, false⟩,
      { r with count := r.count + 1 }.advanceRepeat r.repeating)
  else if r.belowMin then .error .unknownEventCode
  else if code < r.base then .error .unknownEventCode
  else
    let abs := code - r.base + r.shape.before r.pos
    if abs = r.shape.total then .ok (.ended, r)
    else
      match locate r.shape abs (r.shape.len - r.pos) r.pos with
      | none => .error .unknownEventCode
      | some index =>
          .ok (.item ⟨index, abs - r.shape.before index, true⟩,
            { r with
              repeating := index
              repeatingBranches := r.shape.branches index
              count := 1 }.advanceRepeat index)

/-- What a step says to the caller, who may be refused. -/
def said : Except ExiError (Step × SeqReader) → EStateM ExiError Decoder (Step × SeqReader)
  | .ok next => pure next
  | .error e => throw e

/-- `SeqReader::next`. -/
def next (r : SeqReader) : EStateM ExiError Decoder (Step × SeqReader) := do
  said (r.step (← Decoder.event r.width))

/-- The reader behind `c` occurrences of item `j`. -/
def behind (s : Shape) (j c : Nat) : SeqReader where
  shape := s
  pos := j + 1
  base := s.baseAfter j c
  width := s.widthAfter j c
  repeating := j
  count := c
  repeatingBranches := s.branches j
  belowMin := c < s.minAt j

/-- The item found is the one the code is in, and nothing before it is required. -/
theorem locate_eq_some {s : Shape} {abs n i j : Nat} (h : locate s abs n i = some j)
    (hi : s.before i ≤ abs) :
    i ≤ j ∧ j < i + n ∧ s.before j ≤ abs ∧ abs < s.before (j + 1)
      ∧ ∀ k, i ≤ k → k < j → s.minAt k = 0 := by
  induction n generalizing i with
  | zero => cases h
  | succ n ih =>
    unfold locate at h
    split at h
    · next hle =>
      split at h
      · cases h
      · next hmin =>
        obtain ⟨hij, hlt, hbefore, hafter, hoptional⟩ := ih h hle
        refine ⟨by omega, by omega, hbefore, hafter, fun k hk hkj => ?_⟩
        by_cases heq : k = i
        · subst heq
          omega
        · exact hoptional k (by omega) hkj
    · next hlt =>
      cases h
      exact ⟨Nat.le_refl _, by omega, hi, by omega, fun k hk hkj => by omega⟩

/-- An item that its code names is found, if nothing before it is required. -/
theorem locate_of_lt {s : Shape} {abs n i j : Nat} (hij : i ≤ j) (hjn : j < i + n)
    (hbefore : ∀ k, i ≤ k → k < j → s.before (k + 1) ≤ abs ∧ s.minAt k = 0)
    (hafter : abs < s.before (j + 1)) : locate s abs n i = some j := by
  induction n generalizing i with
  | zero => omega
  | succ n ih =>
    unfold locate
    by_cases heq : i = j
    · subst heq
      rw [if_neg (by omega)]
    · obtain ⟨hle, hmin⟩ := hbefore i (Nat.le_refl _) (by omega)
      rw [if_pos hle, if_neg (by omega)]
      exact ih (by omega) (by omega) fun k hk hkj => hbefore k (by omega) hkj

/-- Everything a code can do to a reader. -/
theorem step_cases {r r' : SeqReader} {code : Nat} {said : Step}
    (h : r.step code = .ok (said, r')) :
    (r.base ≠ 0 ∧ code < r.repeatingBranches ∧ said = .item ⟨r.repeating, code, false⟩
        ∧ r' = { r with count := r.count + 1 }.advanceRepeat r.repeating)
      ∨ (r.belowMin = false ∧ r.base ≤ code ∧ (r.base ≠ 0 → r.repeatingBranches ≤ code)
        ∧ code - r.base + r.shape.before r.pos = r.shape.total ∧ said = .ended ∧ r' = r)
      ∨ (∃ j b, r.belowMin = false ∧ r.base ≤ code ∧ r.pos ≤ j ∧ j < r.shape.len
        ∧ (∀ k, r.pos ≤ k → k < j → r.shape.minAt k = 0)
        ∧ code - r.base + r.shape.before r.pos = r.shape.before j + b ∧ b < r.shape.branches j
        ∧ said = .item ⟨j, b, true⟩ ∧ r' = behind r.shape j 1) := by
  unfold step at h
  split at h
  -- the open item repeats
  · next hagain =>
    cases h
    exact .inl ⟨hagain.1, hagain.2, rfl, rfl⟩
  · next hshadow =>
    split at h
    · cases h
    · next hbelow =>
      have hbelow : r.belowMin = false := Bool.not_eq_true _ ▸ hbelow
      split at h
      · cases h
      · next hbase =>
        dsimp only at h
        -- the content ends
        split at h
        · next htotal =>
          cases h
          exact .inr (.inl ⟨hbelow, by omega, fun hopen => Nat.not_lt.mp fun hlt =>
            hshadow ⟨hopen, hlt⟩, htotal, rfl, rfl⟩)
        · split at h
          · cases h
          -- a later item opens, behind optional ones
          · next j hj =>
            obtain ⟨hle, hlt, hbefore, hafter, hoptional⟩ := locate_eq_some hj (by omega)
            cases h
            refine .inr (.inr ⟨j, _, hbelow, by omega, hle, by omega, hoptional, ?_, ?_, rfl, rfl⟩)
            · omega
            · unfold Shape.branches
              omega

/-- Another occurrence of an item that may have one. -/
theorem step_again {s : Shape} {j c b : Nat} (hc : c < s.maxAt j) (hb : b < s.branches j) :
    (behind s j c).step b = .ok (.item ⟨j, b, false⟩, behind s j (c + 1)) := by
  have hbase : (behind s j c).base ≠ 0 := by
    show s.baseAfter j c ≠ 0
    rw [Shape.baseAfter, if_pos hc]
    decide
  unfold step
  rw [if_pos ⟨hbase, hb⟩]
  rfl

/-- The first occurrence of an item that none but optional ones are before. -/
theorem step_first {r : SeqReader} {j b : Nat} (hsorted : r.shape.Sorted)
    (hbelow : r.belowMin = false) (hpos : r.pos ≤ j) (hj : j < r.shape.len)
    (hoptional : ∀ k, r.pos ≤ k → k < j → r.shape.minAt k = 0) (hb : b < r.shape.branches j)
    (hshadow : r.base ≠ 0 → r.repeatingBranches ≤ r.base + r.shape.before j
      - r.shape.before r.pos + b) :
    r.step (r.base + r.shape.before j - r.shape.before r.pos + b)
      = .ok (.item ⟨j, b, true⟩, behind r.shape j 1) := by
  have hle := hsorted.1 r.pos j hpos (by omega)
  have hend := hsorted.1 (j + 1) r.shape.len (by omega) (Nat.le_refl _)
  rw [hsorted.2] at hend
  unfold Shape.branches at hb
  have habs : r.base + r.shape.before j - r.shape.before r.pos + b - r.base
      + r.shape.before r.pos = r.shape.before j + b := by omega
  have hlocate : locate r.shape (r.shape.before j + b) (r.shape.len - r.pos) r.pos = some j := by
    refine locate_of_lt hpos (by omega) (fun k hk hkj => ⟨?_, hoptional k hk hkj⟩) (by omega)
    have hk := hsorted.1 (k + 1) j hkj (by omega)
    omega
  unfold step
  rw [if_neg (fun h => by have hcode := hshadow h.1; omega), if_neg (by rw [hbelow]; decide),
    if_neg (by omega)]
  dsimp only
  rw [habs, if_neg (by omega), hlocate]
  dsimp only
  rw [Nat.add_sub_cancel_left]
  rfl

/-- The end, wherever its code can be read. -/
theorem step_ended {r : SeqReader} (hbelow : r.belowMin = false)
    (hpos : r.shape.before r.pos ≤ r.shape.total)
    (hshadow : r.base ≠ 0 → r.repeatingBranches ≤ r.base + r.shape.total
      - r.shape.before r.pos) :
    r.step (r.base + r.shape.total - r.shape.before r.pos) = .ok (.ended, r) := by
  unfold step
  rw [if_neg (fun h => by have hcode := hshadow h.1; omega), if_neg (by rw [hbelow]; decide),
    if_neg (by omega)]
  dsimp only
  rw [if_pos (by omega)]

end SeqReader

/-! ## Runs of the reader

Codes that are taken one after another, first without a stream and then off any stream they come
next in. By induction on the run, from its first code. -/

/-- A reader takes event codes, with the widths it reads them at, one after another, and each
introduces an occurrence of an item. -/
inductive Takes : SeqReader → List (Nat × Nat) → List Occurrence → SeqReader → Prop where
  | nil (r : SeqReader) : Takes r [] [] r
  | cons {r r₁ r₂ : SeqReader} {code : Nat} {codes : List (Nat × Nat)} {o : Occurrence}
      {os : List Occurrence} (hcode : code < 2 ^ r.width) (hstep : r.step code = .ok (.item o, r₁))
      (htakes : Takes r₁ codes os r₂) : Takes r ((code, r.width) :: codes) (o :: os) r₂

theorem Takes.append {r r₁ r₂ : SeqReader} {codes codes' : List (Nat × Nat)}
    {os os' : List Occurrence} (h : Takes r codes os r₁) (h' : Takes r₁ codes' os' r₂) :
    Takes r (codes ++ codes') (os ++ os') r₂ := by
  induction h with
  | nil => exact h'
  | cons hcode hstep _ ih => exact .cons hcode hstep (ih h')

theorem Takes.single {r r₁ : SeqReader} {code : Nat} {o : Occurrence} (hcode : code < 2 ^ r.width)
    (hstep : r.step code = .ok (.item o, r₁)) : Takes r [(code, r.width)] [o] r₁ :=
  .cons hcode hstep (.nil r₁)

/-- Calls of `SeqReader::next` that return items and then the end. -/
inductive ReadsAll : SeqReader → Decoder → List Occurrence → Decoder → Prop where
  | ended {r r' : SeqReader} {d d' : Decoder} (h : r.next d = .ok (.ended, r') d') :
      ReadsAll r d [] d'
  | item {r r₁ : SeqReader} {d d₁ d' : Decoder} {o : Occurrence} {os : List Occurrence}
      (h : r.next d = .ok (.item o, r₁) d₁) (hrest : ReadsAll r₁ d₁ os d') :
      ReadsAll r d (o :: os) d'

theorem lt_of_event {width code : Nat} {d d' : Decoder}
    (h : Decoder.event width d = .ok code d') : code < 2 ^ width :=
  Decoder.yields_prim (yields_readBits width) d code d' h

/-- What a call of `next` returns is what a step makes of some code. -/
theorem SeqReader.step_of_next {r r' : SeqReader} {d d' : Decoder} {said : Step}
    (h : r.next d = .ok (said, r') d') :
    ∃ code, code < 2 ^ r.width ∧ r.step code = .ok (said, r') := by
  obtain ⟨code, d₁, hevent, hsaid⟩ := bind_ok.mp h
  refine ⟨code, lt_of_event hevent, ?_⟩
  cases hstep : r.step code with
  | error e =>
    rw [hstep] at hsaid
    cases hsaid
  | ok next =>
    rw [hstep] at hsaid
    cases hsaid
    rfl

/-- What a step makes of a code is what `next` returns where the code comes next. -/
theorem SeqReader.gets_next {r r' : SeqReader} {code : Nat} {said : Step}
    (hcode : code < 2 ^ r.width) (hstep : r.step code = .ok (said, r')) :
    Gets r.next (said, r') (bitsOf r.width code) := by
  refine (Decoder.gets_prim (BitReader.gets_readBits hcode)).map ?_
  rw [hstep]
  rfl

/-- The bits of event codes. -/
def codeBits (codes : List (Nat × Nat)) : List Bool := codes.flatMap fun c => bitsOf c.2 c.1

theorem takes_of_readsAll {r : SeqReader} {d d' : Decoder} {os : List Occurrence}
    (h : ReadsAll r d os d') :
    ∃ codes r₁ r' code, Takes r codes os r₁ ∧ code < 2 ^ r₁.width
      ∧ r₁.step code = .ok (.ended, r') := by
  induction h with
  | ended h =>
    obtain ⟨code, hcode, hstep⟩ := SeqReader.step_of_next h
    exact ⟨[], _, _, code, .nil _, hcode, hstep⟩
  | item h _ ih =>
    obtain ⟨code, hcode, hstep⟩ := SeqReader.step_of_next h
    obtain ⟨codes, r₁, r', code', htakes, hcode', hended⟩ := ih
    exact ⟨_, r₁, r', code', .cons hcode hstep htakes, hcode', hended⟩

/-- Any bits come next somewhere. -/
theorem exists_rest (bits : List Bool) : ∃ d : Decoder, ∃ more, Source.rest d = bits ++ more := by
  have hputs : ∀ bits : List Bool,
      Puts ExiError.outputFull (bits.forM BitWriter.writeBit) bits := by
    intro bits
    induction bits with
    | nil => exact Puts.pure
    | cons bit bits ih => exact (BitWriter.puts_writeBit bit).seq ih
  obtain ⟨w, -, hwritten, -⟩ := (hputs bits _ (.new (List.replicate bits.length 0)) rfl).1 (by
    show bits.length ≤ 8 * (List.replicate bits.length 0).length - 0
    rw [List.length_replicate]
    omega)
  obtain ⟨w', len, -, hle, -, hbits⟩ := w.finish_eq
  refine ⟨.new (w'.buf.take len), List.replicate w.padding false, ?_⟩
  exact (rest_new_take hle).trans (hbits.trans (congrArg (· ++ _) hwritten))

/-- The codes of a run and of the end behind it are read off any stream they come next in. -/
theorem reads_takes {r r₁ r' : SeqReader} {codes : List (Nat × Nat)} {os : List Occurrence}
    {code : Nat} (h : Takes r codes os r₁) (hcode : code < 2 ^ r₁.width)
    (hended : r₁.step code = .ok (.ended, r')) {d : Decoder} {more : List Bool}
    (hrest : Source.rest d = codeBits (codes ++ [(code, r₁.width)]) ++ more) :
    ∃ d', ReadsAll r d os d' ∧ Source.rest d' = more ∧ Source.frame d' = Source.frame d := by
  induction h generalizing d with
  | nil =>
    obtain ⟨d', hnext, hmore, hframe⟩ := SeqReader.gets_next hcode hended _ d more rfl (by
      rw [hrest]
      simp [codeBits])
    exact ⟨d', .ended hnext, hmore, hframe⟩
  | cons hlt hstep _ ih =>
    obtain ⟨d₁, hnext, hmore, hframe⟩ := SeqReader.gets_next hlt hstep _ d _ rfl (by
      rw [hrest]
      show bitsOf _ _ ++ codeBits _ ++ more = _
      rw [List.append_assoc])
    obtain ⟨d', hreads, hmore', hframe'⟩ := ih hcode hended hmore
    exact ⟨d', .item hnext hreads, hmore', hframe'.trans hframe⟩

end Iso15118.Exi
