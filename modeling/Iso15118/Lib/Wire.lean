import Mathlib.Data.List.Basic

/-!
# Fixed-layout records on the wire

A record of fixed-width fields is written one field after another into a buffer of its declared
length and read back from the front of whatever arrived. The two cursors, over an arbitrary
error type:

* **`Reader`** — consumes bytes from the front, or refuses; **`Reader.array_run_append`** says
  that a field is read back from the bytes it was written as, whatever follows, and
  **`Reader.run_bind_ok`** chains such reads; **`Reader.Exact`** says how many bytes a reader looks
  at;
* **`Writer`** — collects the fields, zero-filled up to the declared length.

Arrays `[u8; N]` are **`Bytes N`**: the width is part of the type, so a field cannot have the
wrong one.
-/

namespace Iso15118.Lib

variable {ε α β : Type}

/-! ## Arrays

A fixed array is a list that carries its length. Two of them are equal as soon as their lists
are. -/

/-- An array of `n` bytes. -/
structure Bytes (n : Nat) where
  toList : List UInt8
  length_toList : toList.length = n
  deriving DecidableEq

namespace Bytes

variable {n : Nat}

def get (v : Bytes n) (i : Fin n) : UInt8 := v.toList.get (i.cast v.length_toList.symm)

/-- `[b; n]`. -/
def replicate (n : Nat) (b : UInt8) : Bytes n := ⟨List.replicate n b, List.length_replicate⟩

attribute [simp] length_toList

theorem ext {v w : Bytes n} (h : v.toList = w.toList) : v = w := by
  cases v
  cases w
  cases h
  rfl

end Bytes

/-! ## Integers in either byte order

Both orders spell a number with as many bytes as its width. Reading what was written gives the
number back, and the number of bytes is right by construction. -/

/-- `u16::from_be_bytes`. -/
def u16FromBe (b₀ b₁ : UInt8) : UInt16 := UInt16.ofNat (256 * b₀.toNat + b₁.toNat)

/-- `u16::to_be_bytes`. -/
def u16ToBe (v : UInt16) : List UInt8 := [UInt8.ofNat (v.toNat / 256), UInt8.ofNat v.toNat]

/-- `u32::from_be_bytes`. -/
def u32FromBe (b₀ b₁ b₂ b₃ : UInt8) : UInt32 :=
  UInt32.ofNat (16777216 * b₀.toNat + 65536 * b₁.toNat + 256 * b₂.toNat + b₃.toNat)

/-- `u32::to_be_bytes`. -/
def u32ToBe (v : UInt32) : List UInt8 :=
  [UInt8.ofNat (v.toNat / 16777216), UInt8.ofNat (v.toNat / 65536), UInt8.ofNat (v.toNat / 256),
    UInt8.ofNat v.toNat]

/-- `u16::from_le_bytes`. -/
def u16FromLe (b₀ b₁ : UInt8) : UInt16 := UInt16.ofNat (b₀.toNat + 256 * b₁.toNat)

/-- `u16::to_le_bytes`. -/
def u16ToLe (v : UInt16) : List UInt8 := [UInt8.ofNat v.toNat, UInt8.ofNat (v.toNat / 256)]

/-- `u32::from_le_bytes`. -/
def u32FromLe (b₀ b₁ b₂ b₃ : UInt8) : UInt32 :=
  UInt32.ofNat (b₀.toNat + 256 * b₁.toNat + 65536 * b₂.toNat + 16777216 * b₃.toNat)

/-- `u32::to_le_bytes`. -/
def u32ToLe (v : UInt32) : List UInt8 :=
  [UInt8.ofNat v.toNat, UInt8.ofNat (v.toNat / 256), UInt8.ofNat (v.toNat / 65536),
    UInt8.ofNat (v.toNat / 16777216)]

@[simp] theorem length_u16ToLe (v : UInt16) : (u16ToLe v).length = 2 := rfl

@[simp] theorem length_u32ToLe (v : UInt32) : (u32ToLe v).length = 4 := rfl

@[simp] theorem u16FromLe_toLe (v : UInt16) :
    u16FromLe (UInt8.ofNat v.toNat) (UInt8.ofNat (v.toNat / 256)) = v := by
  apply UInt16.toNat_inj.mp
  have hv := v.toNat_lt
  simp only [u16FromLe, UInt16.toNat_ofNat', UInt8.toNat_ofNat']
  omega

@[simp] theorem u32FromLe_toLe (v : UInt32) :
    u32FromLe (UInt8.ofNat v.toNat) (UInt8.ofNat (v.toNat / 256)) (UInt8.ofNat (v.toNat / 65536))
      (UInt8.ofNat (v.toNat / 16777216)) = v := by
  apply UInt32.toNat_inj.mp
  have hv := v.toNat_lt
  simp only [u32FromLe, UInt32.toNat_ofNat', UInt8.toNat_ofNat']
  omega

@[simp] theorem u16FromBe_toBe (v : UInt16) :
    u16FromBe (UInt8.ofNat (v.toNat / 256)) (UInt8.ofNat v.toNat) = v := by
  apply UInt16.toNat_inj.mp
  have hv := v.toNat_lt
  simp only [u16FromBe, UInt16.toNat_ofNat', UInt8.toNat_ofNat']
  omega

@[simp] theorem u32FromBe_toBe (v : UInt32) :
    u32FromBe (UInt8.ofNat (v.toNat / 16777216)) (UInt8.ofNat (v.toNat / 65536))
      (UInt8.ofNat (v.toNat / 256)) (UInt8.ofNat v.toNat) = v := by
  apply UInt32.toNat_inj.mp
  have hv := v.toNat_lt
  simp only [u32FromBe, UInt32.toNat_ofNat', UInt8.toNat_ofNat']
  omega

/-! ## Reading

A reader is a state action on what is left of the slice. Each primitive takes its own bytes from
the front and leaves what follows as it was, whatever that is. -/

/-- A cursor over what is left of a slice; `e` is the error for reading past its end. -/
abbrev Reader (ε : Type) : Type → Type := StateT (List UInt8) (Except ε)

namespace Reader

/-- The next `n` bytes. -/
def array (e : ε) (n : Nat) : Reader ε (Bytes n) := fun bytes =>
  if h : n ≤ bytes.length then
    .ok (⟨bytes.take n, by rw [List.length_take, Nat.min_eq_left h]⟩, bytes.drop n)
  else .error e

/-- The next byte. -/
def u8 (e : ε) : Reader ε UInt8 := do
  let b ← array e 1
  return b.get 0

def u16le (e : ε) : Reader ε UInt16 := do
  let b ← array e 2
  return u16FromLe (b.get 0) (b.get 1)

def u32le (e : ε) : Reader ε UInt32 := do
  let b ← array e 4
  return u32FromLe (b.get 0) (b.get 1) (b.get 2) (b.get 3)

/-- Steps over `n` bytes. -/
def skip (e : ε) (n : Nat) : Reader ε Unit := do
  let _ ← array e n
  return ()

/-- Runs a reader on a whole slice and drops what is left over. -/
def decode (r : Reader ε α) (bytes : List UInt8) : Except ε α :=
  match r.run bytes with
  | .ok (a, _) => .ok a
  | .error e => .error e

variable {e : ε}

/-- A read that succeeds hands its result and the rest to the next read. -/
theorem run_bind_ok {r : Reader ε α} {f : α → Reader ε β} {bytes rest : List UInt8} {a : α}
    (h : r.run bytes = .ok (a, rest)) : (r >>= f).run bytes = (f a).run rest := by
  rw [StateT.run_bind, h]
  rfl

@[simp] theorem array_run_append {n : Nat} (v : Bytes n) (rest : List UInt8) :
    (array e n).run (v.toList ++ rest) = .ok (v, rest) := by
  have hlen := v.length_toList
  have hle : n ≤ (v.toList ++ rest).length := by
    rw [List.length_append]
    omega
  have hv : (⟨(v.toList ++ rest).take n, by rw [List.length_take, Nat.min_eq_left hle]⟩ : Bytes n)
      = v := Bytes.ext (List.take_left' hlen)
  have hrest : (v.toList ++ rest).drop n = rest := List.drop_left' hlen
  show array e n (v.toList ++ rest) = _
  rw [array, dif_pos hle, hv, hrest]

@[simp] theorem u8_run_cons (b : UInt8) (rest : List UInt8) :
    (u8 e).run (b :: rest) = .ok (b, rest) :=
  run_bind_ok (array_run_append ⟨[b], rfl⟩ rest)

@[simp] theorem u16le_run_append (v : UInt16) (rest : List UInt8) :
    (u16le e).run (u16ToLe v ++ rest) = .ok (v, rest) := by
  refine (run_bind_ok (array_run_append ⟨u16ToLe v, rfl⟩ rest)).trans ?_
  exact congrArg (fun w => Except.ok (w, rest)) (u16FromLe_toLe v)

@[simp] theorem u32le_run_append (v : UInt32) (rest : List UInt8) :
    (u32le e).run (u32ToLe v ++ rest) = .ok (v, rest) := by
  refine (run_bind_ok (array_run_append ⟨u32ToLe v, rfl⟩ rest)).trans ?_
  exact congrArg (fun w => Except.ok (w, rest)) (u32FromLe_toLe v)

@[simp] theorem skip_run_replicate (n : Nat) (rest : List UInt8) :
    (skip e n).run (List.replicate n 0 ++ rest) = .ok ((), rest) :=
  run_bind_ok (array_run_append ⟨List.replicate n 0, List.length_replicate⟩ rest)

/-- Whatever the reader returns meets `P`. -/
def Returns (r : Reader ε α) (P : α → Prop) : Prop :=
  ∀ bytes a rest, r.run bytes = .ok (a, rest) → P a

/-- The second read of two is made on a value that the first one returned. -/
theorem Returns.bind {r : Reader ε α} {f : α → Reader ε β} {P : β → Prop}
    (h : ∀ a bytes rest, r.run bytes = .ok (a, rest) → Returns (f a) P) :
    Returns (r >>= f) P := by
  intro bytes b rest hrun
  rw [StateT.run_bind] at hrun
  cases hr : r.run bytes with
  | error e =>
    rw [hr] at hrun
    cases hrun
  | ok read =>
    rw [hr] at hrun
    exact h read.1 bytes read.2 hr read.2 b rest hrun

theorem Returns.pure {a : α} {P : α → Prop} (h : P a) : Returns (pure a : Reader ε α) P := by
  intro bytes b rest hrun
  cases hrun
  exact h

theorem Returns.decode {r : Reader ε α} {P : α → Prop} (h : Returns r P) {bytes : List UInt8}
    {a : α} (hd : decode r bytes = .ok a) : P a := by
  unfold Reader.decode at hd
  split at hd
  · next a' rest hrun =>
    cases hd
    exact h bytes a rest hrun
  · cases hd

/-! ### Readers of a fixed width

A reader that looks at so many bytes and at no others: it is known by what it does on a slice of
that length. This is what lets bytes behind a record be ignored. -/

/-- The reader looks at the next `n` bytes and at nothing else: it is a function of them, and
refuses where they are not there. -/
structure Exact (r : Reader ε α) (n : Nat) : Prop where
  reads : ∃ f : List UInt8 → Except ε α, ∀ front rest, front.length = n →
    r.run (front ++ rest) = (f front).map fun a => (a, rest)
  refuses : ∀ bytes, bytes.length < n → ∃ e, r.run bytes = .error e

theorem run_bind_error {r : Reader ε α} {f : α → Reader ε β} {bytes : List UInt8} {e : ε}
    (h : r.run bytes = .error e) : (r >>= f).run bytes = .error e := by
  rw [StateT.run_bind, h]
  rfl

theorem array_run_of_lt {n : Nat} {bytes : List UInt8} (h : bytes.length < n) :
    (array e n).run bytes = .error e := by
  show array e n bytes = _
  rw [array, dif_neg (Nat.not_le.mpr h)]

theorem array_run_of_le {n : Nat} {bytes : List UInt8} (h : n ≤ bytes.length) :
    ∃ v, (array e n).run bytes = .ok (v, bytes.drop n) := by
  show ∃ v, array e n bytes = _
  rw [array, dif_pos h]
  exact ⟨_, rfl⟩

namespace Exact

theorem pure (a : α) : Exact (pure a : Reader ε α) 0 where
  reads := by
    refine ⟨fun _ => .ok a, fun front rest h => ?_⟩
    obtain rfl := List.length_eq_zero_iff.mp h
    rfl
  refuses _ h := absurd h (Nat.not_lt_zero _)

/-- A check on what has been read reads nothing. -/
theorem lift (x : Except ε α) : Exact (liftM x : Reader ε α) 0 where
  reads := by
    refine ⟨fun _ => x, fun front rest h => ?_⟩
    obtain rfl := List.length_eq_zero_iff.mp h
    cases x <;> rfl
  refuses _ h := absurd h (Nat.not_lt_zero _)

theorem throw (e : ε) : Exact (throw e : Reader ε α) 0 := lift (.error e)

theorem ite {c : Prop} [Decidable c] {r r' : Reader ε α} {n : Nat} (h : Exact r n)
    (h' : Exact r' n) : Exact (if c then r else r') n := by
  split
  · exact h
  · exact h'

theorem array (n : Nat) : Exact (array e n) n where
  reads := by
    refine ⟨fun front => if h : front.length = n then .ok ⟨front, h⟩ else .error e, ?_⟩
    intro front rest h
    dsimp only
    rw [dif_pos h]
    exact array_run_append ⟨front, h⟩ rest
  refuses bytes h := ⟨e, array_run_of_lt h⟩

/-- One read after another looks at the bytes of both. -/
theorem bind {r : Reader ε α} {f : α → Reader ε β} {n m : Nat} (hr : Exact r n)
    (hf : ∀ a, Exact (f a) m) : Exact (r >>= f) (n + m) := by
  obtain ⟨read, hread⟩ := hr.reads
  choose next hnext using fun a => (hf a).reads
  constructor
  -- with enough bytes the first read takes its own, and the second one starts behind them
  · refine ⟨fun front => read (front.take n) >>= fun a => next a (front.drop n), ?_⟩
    intro front rest h
    have htake : (front.take n).length = n := by
      rw [List.length_take]
      omega
    have hdrop : (front.drop n).length = m := by
      rw [List.length_drop]
      omega
    have hsplit : front ++ rest = front.take n ++ (front.drop n ++ rest) := by
      rw [← List.append_assoc, List.take_append_drop]
    have hfirst := hread _ (front.drop n ++ rest) htake
    dsimp only
    rw [hsplit]
    cases hres : read (front.take n) with
    | error e =>
      rw [hres] at hfirst
      exact run_bind_error hfirst
    | ok a =>
      rw [hres] at hfirst
      exact (run_bind_ok hfirst).trans (hnext a _ rest hdrop)
  -- with too few the one or the other refuses
  · intro bytes h
    rcases Nat.lt_or_ge bytes.length n with hshort | hlong
    · obtain ⟨e, he⟩ := hr.refuses bytes hshort
      exact ⟨e, run_bind_error he⟩
    · -- the first read has its bytes, and if it goes well the second one has not
      have htake : (bytes.take n).length = n := by
        rw [List.length_take]
        omega
      have hfirst := hread _ (bytes.drop n) htake
      rw [List.take_append_drop] at hfirst
      cases hres : read (bytes.take n) with
      | error e =>
        rw [hres] at hfirst
        exact ⟨e, run_bind_error hfirst⟩
      | ok a =>
        rw [hres] at hfirst
        obtain ⟨e, he⟩ := (hf a).refuses (bytes.drop n) (by rw [List.length_drop]; omega)
        exact ⟨e, (run_bind_ok hfirst).trans he⟩

theorem map {r : Reader ε α} {n : Nat} (hr : Exact r n) (g : α → β) :
    Exact (r >>= fun a => Pure.pure (g a)) n := hr.bind fun a => pure (g a)

theorem u8 : Exact (u8 e) 1 := (array 1).map _

theorem u16le : Exact (u16le e) 2 := (array 2).map _

theorem u32le : Exact (u32le e) 4 := (array 4).map _

theorem skip (n : Nat) : Exact (skip e n) n := (array n).map _

variable {r : Reader ε α} {n : Nat} {bytes : List UInt8}

/-- What decodes has the bytes the reader looks at. -/
theorem le_of_decode {a : α} (hr : Exact r n) (h : decode r bytes = .ok a) : n ≤ bytes.length := by
  by_contra hshort
  obtain ⟨e, he⟩ := hr.refuses bytes (Nat.lt_of_not_ge hshort)
  rw [decode, he] at h
  cases h

/-- The others make no difference. -/
theorem decode_take (hr : Exact r n) {m : Nat} (hle : n ≤ m) :
    decode r (bytes.take m) = decode r bytes := by
  rcases Nat.lt_or_ge bytes.length n with hshort | hlong
  · rw [List.take_of_length_le (by omega)]
  · obtain ⟨read, hread⟩ := hr.reads
    have hfront : ∀ rest, decode r (bytes.take n ++ rest) = read (bytes.take n) := by
      intro rest
      have hlen : (bytes.take n).length = n := by
        rw [List.length_take]
        omega
      rw [decode, hread _ rest hlen]
      cases read (bytes.take n) <;> rfl
    have hwhole := hfront (bytes.drop n)
    have htaken := hfront ((bytes.take m).drop n)
    rw [List.take_append_drop] at hwhole
    have htake : (bytes.take m).take n = bytes.take n := by
      rw [List.take_take, Nat.min_eq_left hle]
    rw [← htake, List.take_append_drop, htake] at htaken
    rw [hwhole, htaken]

end Exact

end Reader

/-! ## Writing

A record is written into a buffer of its own length, from the front; what has not been written
stays zero. The writer refuses a buffer that is too small before it writes anything. -/

/-- A cursor that writes fields into a zeroed buffer of exactly the record's length. -/
structure Writer where
  len : Nat
  written : List UInt8
  deriving DecidableEq, Repr

namespace Writer

/-- A writer for a record of `len` bytes at the front of a buffer of `capacity` bytes. -/
def new (e : ε) (capacity len : Nat) : Except ε Writer :=
  if len ≤ capacity then .ok ⟨len, []⟩ else .error e

def bytes (w : Writer) (src : List UInt8) : Writer := { w with written := w.written ++ src }

def array {n : Nat} (w : Writer) (v : Bytes n) : Writer := w.bytes v.toList

def u8 (w : Writer) (v : UInt8) : Writer := w.bytes [v]

def u16le (w : Writer) (v : UInt16) : Writer := w.bytes (u16ToLe v)

def u32le (w : Writer) (v : UInt32) : Writer := w.bytes (u32ToLe v)

/-- Steps over `n` bytes, which stay zero. -/
def skip (w : Writer) (n : Nat) : Writer := w.bytes (List.replicate n 0)

/-- The record: what was written, and zeros up to its declared length. -/
def finish (w : Writer) : List UInt8 :=
  w.written ++ List.replicate (w.len - w.written.length) 0

variable {e : ε}

theorem new_of_le {capacity len : Nat} (h : len ≤ capacity) :
    new e capacity len = .ok ⟨len, []⟩ := if_pos h

end Writer

end Iso15118.Lib
