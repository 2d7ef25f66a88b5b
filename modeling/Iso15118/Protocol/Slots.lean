import Iso15118.Lib.Run
import Iso15118.Lib.Slots
import Iso15118.Protocol

/-!
# A set of protocols as it is kept

`Protocols` is an array of `Protocol::COUNT` slots, filled from the front by loops that look for the
first free one. The list in `Iso15118.Protocols` is what the array stands for: whatever is done to
the two of them, they answer the same, and no insertion ever finds the array full.

* **`Slots`** — the array and its operations, and **`Protocols.call`** — the list's;
* **`Packs`** — the array holds the list, kept by every operation;
* **`slots_refine`** — the same over whole runs.
-/

namespace Iso15118

open Iso15118.Lib

namespace Protocol

/-- `Protocol::ALL`: newest generation first. -/
def all : List Protocol := [.iso20, .iso2, .din70121]

/-- `Protocol::COUNT`. -/
def count : Nat := all.length

/-- The order is by generation. -/
def generation : Protocol → Nat
  | .din70121 => 0
  | .iso2 => 1
  | .iso20 => 2

instance fintype : Fintype Protocol where
  elems := {.din70121, .iso2, .iso20}
  complete p := by cases p <;> decide

theorem card_le_count : Fintype.card Protocol ≤ count := by decide

end Protocol

namespace Protocols

/-! ## The array

The loops of the source over the array. Each looks for the first slot that is free, or goes
through all of them; none of them knows how many are in use. -/

/-- `Protocols`: `[Option<Protocol>; Protocol::COUNT]`. -/
structure Slots where
  entries : List (Option Protocol)
  length_eq : entries.length = Protocol.count
  deriving DecidableEq

namespace Slots

/-- `Protocols::new`. -/
def new : Slots := ⟨List.replicate Protocol.count none, List.length_replicate ..⟩

def contains (s : Slots) (protocol : Protocol) : Bool := s.entries.any (· = some protocol)

/-- `Protocols::with`: the first free slot takes it, unless it is there already. -/
def «with» (s : Slots) (protocol : Protocol) : Slots :=
  if s.contains protocol then s
  else ⟨fill protocol s.entries, (length_fill ..).trans s.length_eq⟩

def fromSlice (protocols : List Protocol) : Slots := protocols.foldl «with» new

/-- Whether it was not there already, and the set with it. -/
def insert (s : Slots) (protocol : Protocol) : Bool × Slots :=
  if s.contains protocol then (false, s) else (true, s.«with» protocol)

/-- `Protocols::iter`, which passes over what is empty. -/
def iter (s : Slots) : List Protocol := s.entries.filterMap id

/-- `Protocols::retain`: the set is built again from what is kept. -/
def retain (s : Slots) (f : Protocol → Bool) : Slots :=
  s.iter.foldl (fun t p => if f p then t.«with» p else t) new

def len (s : Slots) : Nat := s.entries.countP Option.isSome

/-- Whether it was there, and the set without it. -/
def remove (s : Slots) (protocol : Protocol) : Bool × Slots :=
  let kept := s.retain (· ≠ protocol)
  (kept.len ≠ s.len, kept)

/-- The first slot. -/
def first (s : Slots) : Option Protocol := s.entries.head?.join

def isEmpty (s : Slots) : Bool := s.first.isNone

/-- `Protocols::best`: `Iterator::max`, by generation. -/
def best (s : Slots) : Option Protocol :=
  s.iter.foldl (fun newest p =>
    some (newest.elim p fun q => if q.generation ≤ p.generation then p else q)) none

/-- `Protocols::from_iter`. -/
def collect (protocols : List Protocol) : Slots :=
  protocols.foldl (fun s p => (s.insert p).2) new

end Slots

/-! ## The list

The same operations on a list without repeats, and what a caller is told by them. -/

/-- The first occurrences, in order. -/
def ofList (protocols : List Protocol) : Protocols :=
  ⟨insertAll [] protocols, nodup_insertAll List.nodup_nil⟩

def add (s : Protocols) (protocol : Protocol) : Protocols :=
  ⟨insertNew s.entries protocol, nodup_insertNew s.nodup⟩

/-- What is done to a set. -/
inductive Op where
  | insert (protocol : Protocol)
  | remove (protocol : Protocol)
  | retain (f : Protocol → Bool)

def Slots.call (s : Slots) : Op → Slots
  | .insert p => (s.insert p).2
  | .remove p => (s.remove p).2
  | .retain f => s.retain f

/-- What the caller is told. -/
def Slots.tells (s : Slots) : Op → List Bool
  | .insert p => [(s.insert p).1]
  | .remove p => [(s.remove p).1]
  | .retain _ => []

/-- On the list: behind the others if it is new, taken out, or filtered. -/
def call (s : Protocols) : Op → Protocols
  | .insert p => s.add p
  | .remove p => s.remove p
  | .retain f => s.retain f

/-- On the list: whether it was new, or was there. -/
def tells (s : Protocols) : Op → List Bool
  | .insert p => [!s.contains p]
  | .remove p => [s.contains p]
  | .retain _ => []

/-! ## The array holds the list

The array is packed: the values are in front, and behind them only empty slots. Every operation
keeps it so, and where one needs a free slot there is one, for the values are distinct and there
are no more of them than slots. -/

/-- `slots` holds `s`, one protocol to a slot. -/
def Packs (slots : Slots) (s : Protocols) : Prop := slots.entries = pack Protocol.count s.entries

variable {slots : Slots} {s : Protocols} {p : Protocol}

theorem packs_new : Packs .new (ofList []) := rfl

theorem Packs.iter_eq (h : Packs slots s) : slots.iter = s.entries := by
  rw [Slots.iter, h, filterMap_pack]

theorem Packs.contains_eq (h : Packs slots s) : slots.contains p = s.contains p := by
  rw [Bool.eq_iff_iff, Slots.contains, List.any_eq_true, contains, decide_eq_true_iff, h]
  constructor
  · rintro ⟨slot, hslot, hp⟩
    rw [of_decide_eq_true hp] at hslot
    exact mem_pack.mp hslot
  · intro hp
    exact ⟨some p, mem_pack.mpr hp, decide_eq_true rfl⟩

theorem Packs.len_eq (h : Packs slots s) : slots.len = s.entries.length := by
  rw [Slots.len, h, countP_pack]

theorem Packs.first_eq (h : Packs slots s) : slots.first = s.entries.head? := by
  rw [Slots.first, h, head?_pack (by decide)]
  rfl

theorem Packs.isEmpty_eq (h : Packs slots s) : slots.isEmpty = s.entries.isEmpty := by
  rw [Slots.isEmpty, h.first_eq]
  cases s.entries <;> rfl

/-- Two arrays that hold the same list are the same. -/
theorem Packs.eq_iff {slots' : Slots} {s' : Protocols} (h : Packs slots s)
    (h' : Packs slots' s') : slots = slots' ↔ s = s' := by
  constructor
  · intro heq
    have hentries : s.entries = s'.entries := by rw [← h.iter_eq, ← h'.iter_eq, heq]
    cases s
    cases s'
    cases hentries
    rfl
  · rintro rfl
    have hentries : slots.entries = slots'.entries := h.trans h'.symm
    cases slots
    cases slots'
    cases hentries
    rfl

/-- A protocol that is not there finds a slot, and it is the one behind the others. -/
theorem Packs.adds (h : Packs slots s) : Packs (slots.«with» p) (s.add p) := by
  unfold Slots.with
  rw [h.contains_eq]
  split
  · next hp =>
    show slots.entries = pack _ (insertNew s.entries p)
    rw [insertNew, if_pos (of_decide_eq_true hp)]
    exact h
  · next hp =>
    have hfresh : p ∉ s.entries := by simpa [contains] using hp
    show fill p slots.entries = pack _ (insertNew s.entries p)
    rw [insertNew, if_neg hfresh, h,
      fill_pack (length_lt_of_fresh Protocol.card_le_count s.nodup hfresh)]

theorem Packs.insert (h : Packs slots s) :
    (slots.insert p).1 = !s.contains p ∧ Packs (slots.insert p).2 (s.add p) := by
  have hwith := h.adds (p := p)
  unfold Slots.insert
  rw [h.contains_eq]
  cases hp : s.contains p with
  | true =>
    rw [Slots.with, h.contains_eq, if_pos hp] at hwith
    exact ⟨rfl, hwith⟩
  | false => exact ⟨rfl, hwith⟩

/-- Putting in what `f` keeps of a list is putting in the filtered list. -/
theorem Packs.retainAll (f : Protocol → Bool) (kept : List Protocol) (h : Packs slots s) :
    ∃ t : Protocols, t.entries = insertAll s.entries (kept.filter f)
      ∧ Packs (kept.foldl (fun t p => if f p then t.«with» p else t) slots) t := by
  induction kept generalizing slots s with
  | nil => exact ⟨s, rfl, h⟩
  | cons p kept ih =>
    rw [List.foldl_cons, List.filter_cons]
    cases hp : f p with
    | true => exact ih (h.adds (p := p))
    | false => exact ih h

theorem Packs.retain (f : Protocol → Bool) (h : Packs slots s) :
    Packs (slots.retain f) (s.retain f) := by
  obtain ⟨t, ht, hpacks⟩ := packs_new.retainAll f slots.iter
  have hentries : t.entries = (s.retain f).entries := by
    rw [ht, h.iter_eq]
    exact insertAll_of_nodup (s.nodup.filter f)
  rw [Packs, ← hentries]
  exact hpacks

/-- What was taken out is missed by the count. -/
theorem Packs.remove (h : Packs slots s) :
    (slots.remove p).1 = s.contains p ∧ Packs (slots.remove p).2 (s.remove p) := by
  have hkept : Packs (slots.retain (· ≠ p)) (s.remove p) := h.retain _
  refine ⟨?_, hkept⟩
  show decide ((slots.retain (· ≠ p)).len ≠ slots.len) = decide (p ∈ s.entries)
  rw [hkept.len_eq, h.len_eq, decide_eq_decide]
  show (s.entries.filter (· ≠ p)).length ≠ s.entries.length ↔ _
  rw [Ne, List.length_filter_eq_length_iff, not_forall]
  constructor
  · rintro ⟨q, hq⟩
    rw [Classical.not_imp] at hq
    obtain rfl : q = p := by simpa using hq.2
    exact hq.1
  · intro hp
    exact ⟨p, fun hall => by simpa using hall hp⟩

theorem Packs.call (h : Packs slots s) (op : Op) : Packs (slots.call op) (s.call op) := by
  cases op with
  | insert p => exact h.insert.2
  | remove p => exact h.remove.2
  | retain f => exact h.retain f

theorem Packs.tells_eq (h : Packs slots s) (op : Op) : slots.tells op = s.tells op := by
  cases op with
  | insert p => exact congrArg ([·]) h.insert.1
  | remove p => exact congrArg ([·]) h.remove.1
  | retain f => rfl

/-! ### Lists of them

Values put in one after another, whichever way the caller collects them. -/

theorem Packs.withAll (protocols : List Protocol) (h : Packs slots s) :
    ∃ t : Protocols, t.entries = insertAll s.entries protocols
      ∧ Packs (protocols.foldl .«with» slots) t := by
  induction protocols generalizing slots s with
  | nil => exact ⟨s, rfl, h⟩
  | cons p protocols ih => exact ih (h.adds (p := p))

theorem packs_fromSlice (protocols : List Protocol) :
    Packs (.fromSlice protocols) (ofList protocols) := by
  obtain ⟨t, ht, h⟩ := packs_new.withAll protocols
  have hentries : t.entries = (ofList protocols).entries := ht
  rw [Packs, ← hentries]
  exact h

/-- An insertion that is not needed changes nothing, so the two ways to collect agree. -/
theorem collect_eq_fromSlice (protocols : List Protocol) :
    Slots.collect protocols = .fromSlice protocols := by
  have hstep : ∀ (s : Slots) (p : Protocol), (s.insert p).2 = s.«with» p := by
    intro s p
    unfold Slots.insert Slots.with
    split <;> rfl
  unfold Slots.collect Slots.fromSlice
  congr 1
  funext s p
  exact hstep s p

/-! ### The newest generation

The greatest of what is in the set, found in one pass over the slots. -/

/-- The newest of `seen`, if there is one. -/
def Newest (seen : List Protocol) : Option Protocol → Prop
  | none => seen = []
  | some p => p ∈ seen ∧ ∀ q ∈ seen, q.generation ≤ p.generation

/-- The newest is found by keeping the better of it and what is seen next. -/
theorem Newest.concat {seen : List Protocol} {newest : Option Protocol} (h : Newest seen newest)
    (p : Protocol) : Newest (seen ++ [p])
      (some (newest.elim p fun q => if q.generation ≤ p.generation then p else q)) := by
  cases newest with
  | none =>
    obtain rfl : seen = [] := h
    refine ⟨List.mem_singleton_self p, fun q hq => ?_⟩
    rw [show q = p from List.mem_singleton.mp hq]
    exact le_rfl
  | some n =>
    obtain ⟨hn, hmax⟩ := h
    have hall : ∀ m, n.generation ≤ m → p.generation ≤ m → ∀ q ∈ seen ++ [p], q.generation ≤ m := by
      intro m hnm hpm q hq
      rcases List.mem_append.mp hq with hq | hq
      · exact (hmax q hq).trans hnm
      · rw [List.mem_singleton.mp hq]
        exact hpm
    rw [Option.elim_some]
    split
    · next hle => exact ⟨List.mem_append_right seen (List.mem_singleton_self p), hall _ hle le_rfl⟩
    · next hlt => exact ⟨List.mem_append_left [p] hn, hall _ le_rfl (by omega)⟩

theorem Newest.append {seen : List Protocol} {newest : Option Protocol} (h : Newest seen newest)
    (rest : List Protocol) : Newest (seen ++ rest) (rest.foldl (fun newest p =>
      some (newest.elim p fun q => if q.generation ≤ p.generation then p else q)) newest) := by
  induction rest generalizing seen newest with
  | nil =>
    rw [List.append_nil]
    exact h
  | cons p rest ih =>
    have hseen : seen ++ p :: rest = seen ++ [p] ++ rest := by simp
    rw [List.foldl_cons, hseen]
    exact ih (h.concat p)

theorem Packs.newest (h : Packs slots s) : Newest s.entries slots.best := by
  have hnone : Newest [] none := rfl
  have hnewest : Newest ([] ++ slots.iter) slots.best := hnone.append slots.iter
  rw [h.iter_eq] at hnewest
  exact hnewest

/-! ## Over whole runs

One operation after another, from an empty set: the run rule carries `Packs` to the end, and
every answer on the way is the list's. -/

/-- What a reader of the array finds is what is in the list. -/
structure Reads (slots : Slots) (s : Protocols) : Prop where
  packs : Packs slots s
  iter : slots.iter = s.entries
  contains : ∀ p, slots.contains p = s.contains p
  len : slots.len = s.entries.length
  isEmpty : slots.isEmpty = s.entries.isEmpty
  first : slots.first = s.entries.head?
  best : Newest s.entries slots.best

theorem Packs.reads (h : Packs slots s) : Reads slots s where
  packs := h
  iter := h.iter_eq
  contains _ := h.contains_eq
  len := h.len_eq
  isEmpty := h.isEmpty_eq
  first := h.first_eq
  best := h.newest

theorem Packs.run (h : Packs slots s) (ops : List Op) :
    Packs (run Slots.call slots ops) (run Protocols.call s ops) := by
  induction ops generalizing slots s with
  | nil => exact h
  | cons op ops ih => exact ih (h.call op)

theorem Packs.outputs_eq (h : Packs slots s) (ops : List Op) :
    outputs Slots.call Slots.tells slots ops = outputs Protocols.call tells s ops := by
  induction ops generalizing slots s with
  | nil => rfl
  | cons op ops ih => rw [outputs_cons, outputs_cons, h.tells_eq, ih (h.call op)]

/-- **The array is the list.** Whatever list a set is made from and whatever is done to it, the
array reads as the list does, its callers are told the same, and two arrays are equal exactly when
the lists are; and it starts with everything it is made from. -/
theorem slots_refine (start : List Protocol) (ops : List Op) :
    Reads (run Slots.call (.fromSlice start) ops) (run call (ofList start) ops)
      ∧ Slots.collect start = .fromSlice start
      ∧ (∀ p, (Slots.fromSlice start).contains p = true ↔ p ∈ start)
      ∧ outputs Slots.call Slots.tells (.fromSlice start) ops
        = outputs call tells (ofList start) ops
      ∧ ∀ start' ops', run Slots.call (.fromSlice start) ops
            = run Slots.call (.fromSlice start') ops'
          ↔ run call (ofList start) ops = run call (ofList start') ops' := by
  have hrun : ∀ start ops, Packs (run Slots.call (.fromSlice start) ops)
      (run call (ofList start) ops) :=
    fun start ops => (packs_fromSlice start).run ops
  refine ⟨(hrun start ops).reads, collect_eq_fromSlice start, ?_,
    (packs_fromSlice start).outputs_eq ops,
    fun start' ops' => (hrun start ops).eq_iff (hrun start' ops')⟩
  intro p
  rw [(packs_fromSlice start).contains_eq, contains, decide_eq_true_iff]
  show p ∈ insertAll [] start ↔ p ∈ start
  rw [mem_insertAll, or_iff_right List.not_mem_nil]

example : (run Slots.call (.fromSlice [.iso2, .iso20, .iso2]) [.remove .iso2, .insert .iso2]).iter
    = [.iso20, .iso2] := by decide

end Protocols

end Iso15118
