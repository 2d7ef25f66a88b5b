import Mathlib.Data.Finmap
import Iso15118.Exi.Primitives

/-!
# The table of string values

Every string value of a stream is offered to a table of two levels first: a partition for the
element or attribute it belongs to, and one for the whole document. A value that is in one of them
is written as its index there.

**`ValueTable.Coherent`** is what makes an index say which value was meant: the values are distinct,
each lookup is the inverse of the vector it looks into, and a partition names nothing that is not
in the document's.
-/

namespace Iso15118.Exi

/-- `ValueCtx`: the partition a value belongs to. -/
structure ValueCtx where
  id : UInt32
  deriving DecidableEq, Repr

/-- `Hit`: where a value was found. -/
inductive Hit where
  | local (index : Nat)
  | global (index : Nat)
  | miss
  deriving DecidableEq, Repr

/-- `Partition`: the values of one context, as indices into the document's, and where each is. -/
structure Partition where
  entries : List Nat
  lookup : Finmap fun _ : String => Nat

/-- `Partition::default`. -/
def Partition.empty : Partition := ⟨[], ∅⟩

/-- `ValueTable`. -/
structure ValueTable where
  globals : List String
  globalLookup : Finmap fun _ : String => Nat
  locals : Finmap fun _ : ValueCtx => Partition

/-- A partition of a document with the values `globals`. -/
structure Partition.Coherent (globals : List String) (p : Partition) : Prop where
  inverse : ∀ value i, p.lookup.lookup value = some i
    ↔ ∃ id, p.entries[i]? = some id ∧ globals[id]? = some value
  inside : ∀ id ∈ p.entries, id < globals.length

theorem getElem?_concat_iff {α : Type} {xs : List α} {a b : α} {i : Nat} :
    (xs ++ [a])[i]? = some b ↔ xs[i]? = some b ∨ (i = xs.length ∧ a = b) := by
  by_cases hlt : i < xs.length
  · rw [List.getElem?_append_left hlt]
    have hne : i ≠ xs.length := by omega
    simp [hne]
  · have hnone : xs[i]? = none := List.getElem?_eq_none (by omega)
    rw [List.getElem?_append_right (by omega), hnone]
    by_cases heq : i = xs.length
    · simp [heq]
    · have hbeyond : [a][i - xs.length]? = none := by
        refine List.getElem?_eq_none ?_
        rw [List.length_singleton]
        omega
      rw [hbeyond]
      simp [heq]

/-- More values in the document do no harm to a partition. -/
theorem Partition.Coherent.append {globals : List String} {p : Partition}
    (h : p.Coherent globals) (value : String) : p.Coherent (globals ++ [value]) where
  inverse value' i := by
    rw [h.inverse value' i]
    constructor
    · rintro ⟨id, hid, hvalue⟩
      exact ⟨id, hid, getElem?_concat_iff.mpr (.inl hvalue)⟩
    · rintro ⟨id, hid, hvalue⟩
      have hlt := h.inside id (List.mem_of_getElem? hid)
      rcases getElem?_concat_iff.mp hvalue with hvalue | ⟨heq, -⟩
      · exact ⟨id, hid, hvalue⟩
      · omega
  inside id hid := by
    have hlt := h.inside id hid
    rw [List.length_append]
    omega

/-- A value that is not in a partition yet gets the next index in it. -/
theorem Partition.Coherent.add {globals : List String} {p : Partition} {value : String} {id : Nat}
    (h : p.Coherent globals) (hid : globals[id]? = some value)
    (hnone : p.lookup.lookup value = none) :
    Partition.Coherent globals
      { entries := p.entries ++ [id], lookup := p.lookup.insert value p.entries.length } where
  inverse value' i := by
    dsimp only
    by_cases hsame : value' = value
    · subst hsame
      rw [Finmap.lookup_insert]
      constructor
      · intro heq
        cases heq
        exact ⟨id, getElem?_concat_iff.mpr (.inr ⟨rfl, rfl⟩), hid⟩
      · rintro ⟨id', hid', hvalue⟩
        rcases getElem?_concat_iff.mp hid' with hentry | ⟨heq, -⟩
        · have hsome := (h.inverse value' i).mpr ⟨id', hentry, hvalue⟩
          rw [hnone] at hsome
          cases hsome
        · rw [heq]
    · rw [Finmap.lookup_insert_of_ne _ hsame, h.inverse value' i]
      constructor
      · rintro ⟨id', hentry, hvalue⟩
        exact ⟨id', getElem?_concat_iff.mpr (.inl hentry), hvalue⟩
      · rintro ⟨id', hentry, hvalue⟩
        rcases getElem?_concat_iff.mp hentry with hentry | ⟨-, rfl⟩
        · exact ⟨id', hentry, hvalue⟩
        · -- the new entry is the value's own
          rw [hid] at hvalue
          exact absurd (Option.some.inj hvalue).symm hsame
  inside id' hid' := by
    rcases List.mem_append.mp hid' with hold | hnew
    · exact h.inside id' hold
    · rw [List.mem_singleton.mp hnew]
      exact (List.getElem?_eq_some_iff.mp hid).1

theorem Partition.coherent_empty (globals : List String) :
    Partition.empty.Coherent globals where
  inverse value i := by simp [Partition.empty]
  inside id hid := by simp [Partition.empty] at hid

namespace ValueTable

/-- `ValueTable::new`. -/
def new : ValueTable := ⟨[], ∅, ∅⟩

/-- `ValueTable::local_len`. -/
def localLen (t : ValueTable) (ctx : ValueCtx) : Nat :=
  match t.locals.lookup ctx with
  | none => 0
  | some p => p.entries.length

/-- `ValueTable::local_index_width`. -/
def localIndexWidth (t : ValueTable) (ctx : ValueCtx) : Nat := bitWidth (t.localLen ctx)

/-- `ValueTable::global_index_width`. -/
def globalIndexWidth (t : ValueTable) : Nat := bitWidth t.globals.length

/-- `ValueTable::find`. -/
def find (t : ValueTable) (ctx : ValueCtx) (value : String) : Hit :=
  match (t.locals.lookup ctx).bind (·.lookup.lookup value) with
  | some idx => .local idx
  | none =>
      match t.globalLookup.lookup value with
      | some idx => .global idx
      | none => .miss

/-- `ValueTable::local`. -/
def getLocal (t : ValueTable) (ctx : ValueCtx) (index : Nat) : Option String :=
  (t.locals.lookup ctx).bind fun p => p.entries[index]?.bind fun id => t.globals[id]?

/-- `ValueTable::global`. -/
def getGlobal (t : ValueTable) (index : Nat) : Option String := t.globals[index]?

/-- The first half of `ValueTable::insert`: the value is one of the document's, and has an id. -/
def intern (t : ValueTable) (value : String) : Nat × ValueTable :=
  match t.globalLookup.lookup value with
  | some id => (id, t)
  | none =>
      (t.globals.length,
        { t with
          globals := t.globals ++ [value]
          globalLookup := t.globalLookup.insert value t.globals.length })

/-- `ValueTable::insert`. -/
def insert (t : ValueTable) (ctx : ValueCtx) (value : String) : ValueTable :=
  let (globalId, t) := t.intern value
  let p := (t.locals.lookup ctx).getD Partition.empty
  let p :=
    if p.lookup.lookup value = none then
      { entries := p.entries ++ [globalId]
        lookup := p.lookup.insert value p.entries.length }
    else p
  { t with locals := t.locals.insert ctx p }

/-! ## What the indices mean

`Coherent` is kept by each of the two halves of an insertion, and holds of the empty table. What
a lookup finds is then the value it was asked for. -/

/-- The values of the document are distinct, the lookups are the inverses of the vectors, and every
entry of a partition is the index of a value. -/
structure Coherent (t : ValueTable) : Prop where
  nodup : t.globals.Nodup
  inverse : ∀ value i, t.globalLookup.lookup value = some i ↔ t.globals[i]? = some value
  locals : ∀ ctx p, t.locals.lookup ctx = some p → p.Coherent t.globals

theorem coherent_new : Coherent new where
  nodup := List.nodup_nil
  inverse value i := by simp [new]
  locals ctx p h := by simp [new] at h

theorem find_local {t : ValueTable} {ctx : ValueCtx} {value : String} {i : Nat} (h : t.Coherent)
    (hfind : t.find ctx value = .local i) :
    t.getLocal ctx i = some value ∧ i < t.localLen ctx := by
  unfold find at hfind
  split at hfind
  · next idx hidx =>
    cases hfind
    obtain ⟨p, hp, hlookup⟩ := Option.bind_eq_some_iff.mp hidx
    obtain ⟨id, hid, hvalue⟩ := ((h.locals ctx p hp).inverse value i).mp hlookup
    refine ⟨?_, ?_⟩
    · simp only [getLocal, hp, Option.bind_some, hid, hvalue]
    · simp only [localLen, hp]
      exact (List.getElem?_eq_some_iff.mp hid).1
  · split at hfind
    · cases hfind
    · cases hfind

theorem find_global {t : ValueTable} {ctx : ValueCtx} {value : String} {i : Nat} (h : t.Coherent)
    (hfind : t.find ctx value = .global i) :
    t.getGlobal i = some value ∧ i < t.globals.length := by
  unfold find at hfind
  split at hfind
  · cases hfind
  · split at hfind
    · next idx hidx =>
      cases hfind
      have hvalue := (h.inverse value i).mp hidx
      exact ⟨hvalue, (List.getElem?_eq_some_iff.mp hvalue).1⟩
    · cases hfind

/-- What a value that is taken into the document has for an id. -/
theorem intern_cases (t : ValueTable) (value : String) :
    (∃ id, t.globalLookup.lookup value = some id ∧ t.intern value = (id, t))
      ∨ (t.globalLookup.lookup value = none ∧ t.intern value
        = (t.globals.length,
          { t with
            globals := t.globals ++ [value]
            globalLookup := t.globalLookup.insert value t.globals.length })) := by
  unfold intern
  cases hlookup : t.globalLookup.lookup value with
  | some id => exact .inl ⟨id, rfl, rfl⟩
  | none => exact .inr ⟨rfl, rfl⟩

/-- Interning keeps the two directions of the table one the inverse of the other. -/
theorem Coherent.intern {t : ValueTable} (h : t.Coherent) (value : String) :
    (t.intern value).2.Coherent
      ∧ (t.intern value).2.globals[(t.intern value).1]? = some value := by
  rcases t.intern_cases value with ⟨id, hlookup, heq⟩ | ⟨hnone, heq⟩
  · rw [heq]
    exact ⟨h, (h.inverse value id).mp hlookup⟩
  · rw [heq]
    -- a value without an id is not one of the document's
    have hnew : value ∉ t.globals := by
      intro hmem
      obtain ⟨i, hi, hget⟩ := List.mem_iff_getElem.mp hmem
      have hsome := (h.inverse value i).mpr (List.getElem?_eq_some_iff.mpr ⟨hi, hget⟩)
      rw [hnone] at hsome
      cases hsome
    refine ⟨⟨?_, ?_, ?_⟩, List.getElem?_concat_length⟩
    · exact List.nodup_append.mpr ⟨h.nodup, List.nodup_singleton value, by
        intro a ha b hb
        rw [List.mem_singleton.mp hb]
        rintro rfl
        exact hnew ha⟩
    · intro value' i
      dsimp only
      by_cases hsame : value' = value
      · subst hsame
        rw [Finmap.lookup_insert, getElem?_concat_iff]
        constructor
        · intro heq
          cases heq
          exact .inr ⟨rfl, rfl⟩
        · rintro (hold | ⟨heq, -⟩)
          · exact absurd (List.mem_of_getElem? hold) hnew
          · rw [heq]
      · rw [Finmap.lookup_insert_of_ne _ hsame, h.inverse value' i, getElem?_concat_iff]
        exact ⟨.inl, fun hget => hget.resolve_right fun heq => hsame heq.2.symm⟩
    · intro ctx p hp
      exact (h.locals ctx p hp).append value

/-- A value that is inserted leaves the table coherent, whether it was there or not. -/
theorem Coherent.insert {t : ValueTable} (h : t.Coherent) (ctx : ValueCtx) (value : String) :
    (t.insert ctx value).Coherent := by
  obtain ⟨hcoherent, hid⟩ := h.intern value
  unfold ValueTable.insert
  generalize t.intern value = interned at hcoherent hid
  obtain ⟨globalId, t'⟩ := interned
  dsimp only at hcoherent hid ⊢
  have hp : ((t'.locals.lookup ctx).getD Partition.empty).Coherent t'.globals := by
    cases hlookup : t'.locals.lookup ctx with
    | none => exact Partition.coherent_empty _
    | some p => exact hcoherent.locals ctx p hlookup
  refine ⟨hcoherent.nodup, hcoherent.inverse, fun ctx' p' hp' => ?_⟩
  dsimp only at hp' ⊢
  by_cases hsame : ctx' = ctx
  · subst hsame
    rw [Finmap.lookup_insert] at hp'
    cases hp'
    split
    · next hnone => exact hp.add hid hnone
    · exact hp
  · rw [Finmap.lookup_insert_of_ne _ hsame] at hp'
    exact hcoherent.locals ctx' p' hp'

end ValueTable

end Iso15118.Exi
