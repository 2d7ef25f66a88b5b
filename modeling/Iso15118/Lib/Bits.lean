import Mathlib.Data.List.Basic
import Mathlib.Data.List.Range
import Mathlib.Data.Nat.Bitwise

/-!
# Bits in order, written and read

A number of `n` bits is a list of `n` Booleans, the most significant one first (**`bitsOf`**), and
so are the bytes of a buffer. Whatever packs bits into something of bounded size is a **`Sink`**:
all that matters of it is what has been written and how much room is left. Whatever unpacks them is
a **`Source`**: all that matters of it is what is left to read.

What an action of a writer or a reader does is then one line, **`Puts`** or **`Gets`**, whatever the
state it runs on looks like inside, and the lines compose: **`Puts.seq`**, **`Gets.bind`**. An
action that changes the rest of the state as well has a line of its own kind, **`Writes`** or
**`Reads`**.
-/

namespace Iso15118.Lib

/-! ## Numbers as bits

`bitsOf` and `ofBits` are inverse to each other on what fits: the bits of `n` places are those of
the number modulo `2 ^ n`. By induction on the number of places, the top one first. -/

/-- The low `n` bits of `v`, the most significant one first. -/
def bitsOf : Nat → Nat → List Bool
  | 0, _ => []
  | n + 1, v => v.testBit n :: bitsOf n v

/-- The number a list of bits spells. -/
def ofBits (bits : List Bool) : Nat := bits.foldl (fun acc b => 2 * acc + b.toNat) 0

@[simp] theorem length_bitsOf (n v : Nat) : (bitsOf n v).length = n := by
  induction n with
  | zero => rfl
  | succ n ih => simp [bitsOf, ih]

theorem foldl_ofBits (bits : List Bool) (acc : Nat) :
    bits.foldl (fun acc b => 2 * acc + b.toNat) acc = 2 ^ bits.length * acc + ofBits bits := by
  unfold ofBits
  induction bits generalizing acc with
  | nil => simp
  | cons b bits ih =>
    rw [List.foldl_cons, List.foldl_cons, ih, ih (2 * 0 + b.toNat), List.length_cons, Nat.pow_succ,
      Nat.mul_add, Nat.mul_zero, Nat.zero_add, ← Nat.mul_assoc]
    omega

theorem ofBits_cons (b : Bool) (bits : List Bool) :
    ofBits (b :: bits) = 2 ^ bits.length * b.toNat + ofBits bits := by
  have h := foldl_ofBits bits (2 * 0 + b.toNat)
  unfold ofBits
  rw [List.foldl_cons, h, Nat.mul_zero, Nat.zero_add]
  rfl

theorem ofBits_bitsOf_mod (n v : Nat) : ofBits (bitsOf n v) = v % 2 ^ n := by
  induction n with
  | zero => simp [bitsOf, ofBits, Nat.mod_one]
  | succ n ih =>
    have hbit : (v.testBit n).toNat = v / 2 ^ n % 2 := Nat.toNat_testBit v n
    rw [bitsOf, ofBits_cons, length_bitsOf, ih, hbit, Nat.mod_pow_succ]
    omega

theorem ofBits_bitsOf {n v : Nat} (h : v < 2 ^ n) : ofBits (bitsOf n v) = v := by
  rw [ofBits_bitsOf_mod, Nat.mod_eq_of_lt h]

/-! ## Bits of a buffer

The buffer is read as one long list of bits, of which a position and a length cut out a piece.
What is cut out in two pieces is what is cut out in one, `bitsAt_add`, and only the bytes the
piece lies in matter, `bitsAt_congr`. -/

/-- The bit at position `i` of a buffer, counted from the most significant bit of the first byte. -/
def bitAt (buf : List UInt8) (i : Nat) : Bool := (buf[i / 8]?.getD 0).toNat.testBit (7 - i % 8)

/-- `n` bits of a buffer from position `i` on. -/
def bitsAt (buf : List UInt8) (i n : Nat) : List Bool := (List.range' i n).map (bitAt buf)

@[simp] theorem length_bitsAt (buf : List UInt8) (i n : Nat) : (bitsAt buf i n).length = n := by
  simp [bitsAt]

@[simp] theorem bitsAt_zero (buf : List UInt8) (i : Nat) : bitsAt buf i 0 = [] := rfl

theorem bitsAt_succ (buf : List UInt8) (i n : Nat) :
    bitsAt buf i (n + 1) = bitAt buf i :: bitsAt buf (i + 1) n := by
  simp [bitsAt, List.range'_succ]

theorem bitsAt_add (buf : List UInt8) (i m n : Nat) :
    bitsAt buf i (m + n) = bitsAt buf i m ++ bitsAt buf (i + m) n := by
  unfold bitsAt
  rw [← List.map_append, ← List.range'_append_1]

theorem bitsAt_congr {buf buf' : List UInt8} {i n : Nat}
    (h : ∀ k, i ≤ k → k < i + n → bitAt buf k = bitAt buf' k) :
    bitsAt buf i n = bitsAt buf' i n := by
  unfold bitsAt
  refine List.map_congr_left fun k hk => ?_
  rw [List.mem_range'_1] at hk
  exact h k hk.1 hk.2

theorem bitAt_take {buf : List UInt8} {i n : Nat} (h : i < 8 * n) :
    bitAt (buf.take n) i = bitAt buf i := by
  unfold bitAt
  rw [List.getElem?_take_of_lt (by omega)]

/-! ## Sinks and sources

An action is described by the bits it writes or reads alone, from any state. Putting actions one
after the other appends their bits, so a proof about a writer or a reader follows its text. -/

/-- What can be written to: the bits it holds so far, how many more it can take, and what writing
has no business with. -/
class Sink (σ : Type) where
  written : σ → List Bool
  room : σ → Nat
  Frame : Type
  frame : σ → Frame

/-- What can be read from: the bits left, and what reading has no business with. -/
class Source (σ : Type) where
  rest : σ → List Bool
  Frame : Type
  frame : σ → Frame

section Puts

variable {σ ε : Type} [Sink σ]

open Sink

/-- From a state with the frame `f` the action writes `bits` after what is there and leaves the
frame `f'`, if there is room for all of them; else it fails with `full`, and what was there
stays. -/
def Writes (full : ε) (m : EStateM ε σ Unit) (f f' : Frame σ) (bits : List Bool) : Prop :=
  ∀ s, frame s = f →
    (bits.length ≤ room s →
      ∃ s', m s = .ok () s' ∧ written s' = written s ++ bits ∧ room s = room s' + bits.length
        ∧ frame s' = f')
    ∧ (room s < bits.length → ∃ s', m s = .error full s' ∧ written s <+: written s')

variable {full : ε} {m m' : EStateM ε σ Unit} {f f₁ f₂ : Frame σ} {xs ys : List Bool}

theorem Writes.pure : Writes full (Pure.pure () : EStateM ε σ Unit) f f [] := by
  refine fun s hf => ⟨fun _ => ⟨s, rfl, by simp, rfl, hf⟩, fun h => ?_⟩
  exact absurd h (Nat.not_lt_zero _)

/-- One after the other. -/
theorem Writes.seq (h : Writes full m f f₁ xs) (h' : Writes full m' f₁ f₂ ys) :
    Writes full (m >>= fun _ => m') f f₂ (xs ++ ys) := by
  intro s hf
  rw [List.length_append]
  by_cases hroom : xs.length ≤ room s
  · obtain ⟨s₁, hm, hwritten, hleft, hframe⟩ := (h s hf).1 hroom
    have hbind : (m >>= fun _ => m') s = m' s₁ := by
      show EStateM.bind m (fun _ => m') s = _
      rw [EStateM.bind, hm]
    constructor
    · intro hfits
      obtain ⟨s₂, hm', hwritten', hleft', hframe'⟩ := (h' s₁ hframe).1 (by omega)
      refine ⟨s₂, hbind.trans hm', ?_, by omega, hframe'⟩
      rw [hwritten', hwritten, List.append_assoc]
    · intro hfull
      obtain ⟨s₂, hm', hprefix⟩ := (h' s₁ hframe).2 (by omega)
      refine ⟨s₂, hbind.trans hm', List.IsPrefix.trans ?_ hprefix⟩
      rw [hwritten]
      exact List.prefix_append ..
  · obtain ⟨s₁, hm, hprefix⟩ := (h s hf).2 (by omega)
    have hbind : (m >>= fun _ => m') s = .error full s₁ := by
      show EStateM.bind m (fun _ => m') s = _
      rw [EStateM.bind, hm]
    exact ⟨fun hfits => by omega, fun _ => ⟨s₁, hbind, hprefix⟩⟩

/-- The action writes `bits`, and the frame is not its business. -/
def Puts (full : ε) (m : EStateM ε σ Unit) (bits : List Bool) : Prop :=
  ∀ f, Writes full m f f bits

theorem Puts.pure : Puts full (Pure.pure () : EStateM ε σ Unit) [] := fun _ => Writes.pure

theorem Puts.seq (h : Puts full m xs) (h' : Puts full m' ys) :
    Puts full (m >>= fun _ => m') (xs ++ ys) := fun f => (h f).seq (h' f)

end Puts

section Gets

variable {σ ε α β : Type} [Source σ]

open Source

/-- From a state with the frame `f`, where `bits` come next, the action reads them, returns `a` and
leaves the frame `f'`. -/
def Reads (m : EStateM ε σ α) (f f' : Frame σ) (a : α) (bits : List Bool) : Prop :=
  ∀ s more, frame s = f → rest s = bits ++ more →
    ∃ s', m s = .ok a s' ∧ rest s' = more ∧ frame s' = f'

variable {m : EStateM ε σ α} {k : α → EStateM ε σ β} {a : α} {b : β} {f f₁ f₂ : Frame σ}
  {xs ys : List Bool}

theorem Reads.pure : Reads (Pure.pure a : EStateM ε σ α) f f a [] :=
  fun s _ hf h => ⟨s, rfl, h, hf⟩

/-- One after the other. -/
theorem Reads.bind (h : Reads m f f₁ a xs) (h' : Reads (k a) f₁ f₂ b ys) :
    Reads (m >>= k) f f₂ b (xs ++ ys) := by
  intro s more hf hrest
  rw [List.append_assoc] at hrest
  obtain ⟨s₁, hm, hrest₁, hframe⟩ := h s (ys ++ more) hf hrest
  obtain ⟨s₂, hk, hrest₂, hframe₂⟩ := h' s₁ more hframe hrest₁
  refine ⟨s₂, ?_, hrest₂, hframe₂⟩
  show EStateM.bind m k s = _
  rw [EStateM.bind, hm]
  exact hk

/-- The last step of a reader that only makes something of what it has read. -/
theorem Reads.map (h : Reads m f f₁ a xs) (h' : k a = Pure.pure b) :
    Reads (m >>= k) f f₁ b xs := by
  have hbind : Reads (m >>= k) f f₁ b (xs ++ []) := h.bind (by rw [h']; exact Reads.pure)
  rw [List.append_nil] at hbind
  exact hbind

/-- Where `bits` come next, the action reads them and returns `a`, and the frame is not its
business. -/
def Gets (m : EStateM ε σ α) (a : α) (bits : List Bool) : Prop := ∀ f, Reads m f f a bits

theorem Gets.pure : Gets (Pure.pure a : EStateM ε σ α) a [] := fun _ => Reads.pure

theorem Gets.bind (h : Gets m a xs) (h' : Gets (k a) b ys) : Gets (m >>= k) b (xs ++ ys) :=
  fun f => (h f).bind (h' f)

theorem Gets.map (h : Gets m a xs) (h' : k a = Pure.pure b) : Gets (m >>= k) b xs :=
  fun f => (h f).map h'

end Gets

/-! ## Both

What is true of both ends: a type round trips when its writer and its reader agree on its bits,
and when the reader returns no value that the writer could not have written. -/

section Inversion

variable {σ ε α β : Type}

/-- A chain of actions succeeds if each of them does. -/
theorem bind_ok {m : EStateM ε σ α} {f : α → EStateM ε σ β} {s s' : σ} {b : β} :
    (m >>= f) s = .ok b s' ↔ ∃ a s₁, m s = .ok a s₁ ∧ f a s₁ = .ok b s' := by
  show EStateM.bind m f s = _ ↔ _
  unfold EStateM.bind
  constructor
  · intro h
    split at h
    · next a s₁ hm => exact ⟨a, s₁, hm, h⟩
    · cases h
  · rintro ⟨a, s₁, hm, hf⟩
    rw [hm]
    exact hf

/-- Nothing comes out of the action but what is in `P`. -/
def Yields (m : EStateM ε σ α) (P : α → Prop) : Prop := ∀ s a s', m s = .ok a s' → P a

theorem Yields.pure {a : α} {P : α → Prop} (h : P a) :
    Yields (Pure.pure a : EStateM ε σ α) P := by
  intro s b s' hok
  cases hok
  exact h

theorem Yields.throw {e : ε} {P : α → Prop} : Yields (MonadExcept.throw e : EStateM ε σ α) P :=
  fun _ _ _ hok => by cases hok

theorem Yields.bind {m : EStateM ε σ α} {f : α → EStateM ε σ β} {P : α → Prop} {Q : β → Prop}
    (h : Yields m P) (h' : ∀ a, P a → Yields (f a) Q) : Yields (m >>= f) Q := by
  intro s b s' hok
  obtain ⟨a, s₁, hm, hf⟩ := bind_ok.mp hok
  exact h' a (h s a s₁ hm) s₁ b s' hf

theorem Yields.true (m : EStateM ε σ α) : Yields m fun _ => True := fun _ _ _ _ => trivial

end Inversion

/-- A writer and a reader of one type: a valid value is put into the stream as `bits`, and the
reader gets it back from there; and nothing comes out of the reader but valid values. -/
structure RoundTrips {σ τ ε α : Type} [Sink σ] [Source τ] (full : ε)
    (write : α → EStateM ε σ Unit) (read : EStateM ε τ α) (Valid : α → Prop)
    (bits : α → List Bool) : Prop where
  puts : ∀ a, Valid a → Puts full (write a) (bits a)
  gets : ∀ a, Valid a → Gets read a (bits a)
  yields : Yields read Valid

end Iso15118.Lib
