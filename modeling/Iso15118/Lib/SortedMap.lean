import Mathlib.Data.List.Pairwise
import Mathlib.Order.Lattice

/-!
# Maps in the order of their keys

A map as the list of its entries, in the order of their keys, so that going through the map is going
through the list.

* **`SortedMap`** — the entries, with the order as a field;
* **`SortedMap.alter`** — one entry changed or put in, with **`SortedMap.find?_alter`**;
* **`SortedMap.insertAll`** — entries put in one after another, with
  **`SortedMap.find?_insertAll_eq_some`**;
* **`SortedMap.filterMap`** — every value changed or left out, with **`SortedMap.find?_filterMap`**.
-/

namespace Iso15118.Lib

universe u v w

/-- Entries in the order of their keys, and no key twice. -/
structure SortedMap (κ : Type u) (α : Type v) [LinearOrder κ] where
  entries : List (κ × α)
  sorted : entries.Pairwise fun a b => a.1 < b.1

namespace SortedMap

variable {κ : Type u} {α : Type v} {β : Type w} [LinearOrder κ]

def empty : SortedMap κ α := ⟨[], List.Pairwise.nil⟩

/-- The value at a key, in a list of entries. -/
def lookup (k : κ) : List (κ × α) → Option α
  | [] => none
  | (k', a) :: rest => if k' = k then some a else lookup k rest

def find? (m : SortedMap κ α) (k : κ) : Option α := lookup k m.entries

def keys (m : SortedMap κ α) : List κ := m.entries.map (·.1)

/-- The entries with the one for `k` changed, or put in where it belongs. -/
def alterEntries (k : κ) (f : Option α → α) : List (κ × α) → List (κ × α)
  | [] => [(k, f none)]
  | (k', a) :: rest =>
      if k < k' then (k, f none) :: (k', a) :: rest
      else if k = k' then (k, f (some a)) :: rest
      else (k', a) :: alterEntries k f rest

variable {m : SortedMap κ α} {k k' : κ} {a : α} {f : Option α → α} {l : List (κ × α)}

theorem key_of_mem_alterEntries {e : κ × α} (h : e ∈ alterEntries k f l) :
    e.1 = k ∨ ∃ e' ∈ l, e.1 = e'.1 := by
  induction l with
  | nil => exact .inl (by rw [List.mem_singleton.mp h])
  | cons head rest ih =>
    obtain ⟨k', a⟩ := head
    rw [alterEntries] at h
    split_ifs at h with hlt heq
    · rcases List.mem_cons.mp h with rfl | h
      · exact .inl rfl
      · exact .inr ⟨e, h, rfl⟩
    · rcases List.mem_cons.mp h with rfl | h
      · exact .inl rfl
      · exact .inr ⟨e, List.mem_cons_of_mem _ h, rfl⟩
    · rcases List.mem_cons.mp h with rfl | h
      · exact .inr ⟨_, List.mem_cons_self, rfl⟩
      · rcases ih h with hk | ⟨e', he', hkey⟩
        · exact .inl hk
        · exact .inr ⟨e', List.mem_cons_of_mem _ he', hkey⟩

/-- Altering an entry keeps the keys in order. -/
theorem sorted_alterEntries (h : l.Pairwise fun a b => a.1 < b.1) :
    (alterEntries k f l).Pairwise fun a b => a.1 < b.1 := by
  induction l with
  | nil => exact List.pairwise_singleton _ _
  | cons head rest ih =>
    obtain ⟨k', a⟩ := head
    obtain ⟨hhead, hrest⟩ := List.pairwise_cons.mp h
    rw [alterEntries]
    split_ifs with hlt heq
    · refine List.pairwise_cons.mpr ⟨fun e he => ?_, h⟩
      rcases List.mem_cons.mp he with rfl | he
      · exact hlt
      · exact hlt.trans (hhead e he)
    · subst heq
      exact List.pairwise_cons.mpr ⟨hhead, hrest⟩
    · have hgt : k' < k := lt_of_le_of_ne (not_lt.mp hlt) (Ne.symm heq)
      refine List.pairwise_cons.mpr ⟨fun e he => ?_, ih hrest⟩
      rcases key_of_mem_alterEntries he with hk | ⟨e', he', hkey⟩
      · rw [hk]
        exact hgt
      · rw [hkey]
        exact hhead e' he'

/-- `BTreeMap::entry`, followed by an insertion whatever it found. -/
def alter (m : SortedMap κ α) (k : κ) (f : Option α → α) : SortedMap κ α :=
  ⟨alterEntries k f m.entries, sorted_alterEntries m.sorted⟩

/-- An entry put in after another, in place of the one for the same key. -/
def insertAll (m : SortedMap κ α) (l : List (κ × α)) : SortedMap κ α :=
  l.foldl (fun m e => m.alter e.1 fun _ => e.2) m

/-- The values of `g`, without the entries that have none. -/
def filterMap (m : SortedMap κ α) (g : α → Option β) : SortedMap κ β where
  entries := m.entries.filterMap fun e => (g e.2).map fun b => (e.1, b)
  sorted := by
    refine m.sorted.filterMap _ fun e e' hlt b hb b' hb' => ?_
    obtain ⟨_, -, rfl⟩ := Option.map_eq_some_iff.mp hb
    obtain ⟨_, -, rfl⟩ := Option.map_eq_some_iff.mp hb'
    exact hlt

/-! ## Looking up

No key is there twice, so that looking up and being among the entries are the same. An alteration
changes the result at its own key and at no other. -/

/-- A key before all others is not there. -/
theorem lookup_eq_none (h : ∀ e ∈ l, k < e.1) : lookup k l = none := by
  induction l with
  | nil => rfl
  | cons head rest ih =>
    obtain ⟨hhead, hrest⟩ := List.forall_mem_cons.mp h
    rw [lookup, if_neg hhead.ne', ih hrest]

theorem lookup_eq_some (h : l.Pairwise fun a b => a.1 < b.1) :
    lookup k l = some a ↔ (k, a) ∈ l := by
  induction l with
  | nil => exact iff_of_false nofun List.not_mem_nil
  | cons head rest ih =>
    obtain ⟨k', b⟩ := head
    obtain ⟨hhead, hrest⟩ := List.pairwise_cons.mp h
    rw [lookup, List.mem_cons, Prod.mk.injEq]
    split_ifs with heq
    · subst heq
      have hnot : (k', a) ∉ rest := fun hin => lt_irrefl k' (hhead _ hin)
      simp [hnot, eq_comm]
    · simp [ih hrest, Ne.symm heq]

/-- An entry that is altered is altered, and the others are as they were. -/
theorem lookup_alterEntries (h : l.Pairwise fun a b => a.1 < b.1) :
    lookup k' (alterEntries k f l) = if k' = k then some (f (lookup k l)) else lookup k' l := by
  induction l with
  | nil =>
    rw [alterEntries, lookup]
    simp only [lookup, eq_comm]
  | cons head rest ih =>
    obtain ⟨k₀, b⟩ := head
    obtain ⟨hhead, hrest⟩ := List.pairwise_cons.mp h
    rw [alterEntries]
    by_cases hlt : k < k₀
    · have hnone : lookup k ((k₀, b) :: rest) = none :=
        lookup_eq_none (List.forall_mem_cons.mpr ⟨hlt, fun e he => hlt.trans (hhead e he)⟩)
      rw [if_pos hlt, hnone, lookup]
      simp only [eq_comm]
    rw [if_neg hlt]
    by_cases heq : k = k₀
    · rw [if_pos heq, heq, lookup, lookup, lookup, if_pos rfl]
      by_cases hk : k' = k₀
      · rw [if_pos hk.symm, if_pos hk]
      · rw [if_neg (Ne.symm hk), if_neg hk, if_neg (Ne.symm hk)]
    · rw [if_neg heq, lookup, ih hrest, lookup, lookup, if_neg (Ne.symm heq)]
      by_cases hk : k' = k
      · rw [if_pos hk, if_pos hk, if_neg (hk ▸ Ne.symm heq)]
      · rw [if_neg hk, if_neg hk]

theorem find?_eq_some : m.find? k = some a ↔ (k, a) ∈ m.entries := lookup_eq_some m.sorted

theorem mem_keys : k ∈ m.keys ↔ ∃ a, m.find? k = some a := by
  simp only [find?_eq_some, keys, List.mem_map, Prod.exists, exists_and_right, exists_eq_right]

theorem keys_sorted (m : SortedMap κ α) : m.keys.Pairwise (· < ·) :=
  List.pairwise_map.mpr m.sorted

theorem find?_alter :
    (m.alter k f).find? k' = if k' = k then some (f (m.find? k)) else m.find? k' :=
  lookup_alterEntries m.sorted

/-- A key is there if it was there or is put in. -/
theorem isSome_find?_insertAll :
    ((m.insertAll l).find? k).isSome ↔ (m.find? k).isSome ∨ ∃ a, (k, a) ∈ l := by
  induction l generalizing m with
  | nil => simp [insertAll]
  | cons head rest ih =>
    obtain ⟨k', a⟩ := head
    have hfind : ((m.insertAll ((k', a) :: rest)).find? k).isSome
        ↔ ((m.alter k' fun _ => a).find? k).isSome ∨ ∃ b, (k, b) ∈ rest := ih
    rw [hfind, find?_alter]
    by_cases hk : k = k'
    · subst hk
      simp
    · simp [hk]

/-- A value was there or is put in. -/
theorem find?_insertAll_eq_some (h : (m.insertAll l).find? k = some a) :
    m.find? k = some a ∨ (k, a) ∈ l := by
  induction l generalizing m with
  | nil => exact .inl h
  | cons head rest ih =>
    obtain ⟨k', b⟩ := head
    have h : ((m.alter k' fun _ => b).insertAll rest).find? k = some a := h
    rcases ih h with hfind | hin
    · rw [find?_alter] at hfind
      split_ifs at hfind with hk
      · cases hfind
        exact .inr (hk ▸ List.mem_cons_self)
      · exact .inl hfind
    · exact .inr (List.mem_cons_of_mem _ hin)

theorem find?_filterMap (g : α → Option β) : (m.filterMap g).find? k = (m.find? k).bind g := by
  ext b
  rw [find?_eq_some, Option.bind_eq_some_iff]
  simp only [find?_eq_some, filterMap, List.mem_filterMap, Option.map_eq_some_iff, Prod.mk.injEq,
    Prod.exists]
  constructor
  · rintro ⟨k', a, hin, b', hg, rfl, rfl⟩
    exact ⟨a, hin, hg⟩
  · rintro ⟨a, hin, hg⟩
    exact ⟨k, a, hin, b, hg, rfl, rfl⟩

end SortedMap

end Iso15118.Lib
