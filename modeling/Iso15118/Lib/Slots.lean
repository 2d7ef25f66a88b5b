import Mathlib.Data.Fintype.Card
import Mathlib.Data.List.Nodup
import Mathlib.Data.List.Pairwise

/-!
# A set in a fixed number of slots

Distinct values kept in the order they came in, in `n` slots filled from the front. Where there are
no more values than slots, a value that is not there finds one free: **`length_lt_of_fresh`**.

* **`pack`** — the slots that hold a list, and what each loop over them computes;
* **`insertNew`**, **`insertAll`** — a value put behind the others unless it is there, and a whole
  list of them: the first occurrences, in order.
-/

namespace Iso15118.Lib

variable {α : Type} {n : Nat} {xs ys : List α} {x y : α}

/-! ## The slots

The array is a list with its free slots behind it. Filling a free slot appends to the list;
looking through the slots looks through the list. -/

/-- `xs`, one to a slot, and the other slots empty. -/
def pack (n : Nat) (xs : List α) : List (Option α) :=
  xs.map some ++ List.replicate (n - xs.length) none

/-- Puts `x` in the first slot that is free. -/
def fill (x : α) : List (Option α) → List (Option α)
  | [] => []
  | none :: slots => some x :: slots
  | some y :: slots => some y :: fill x slots

@[simp] theorem length_fill (slots : List (Option α)) : (fill x slots).length = slots.length := by
  induction slots with
  | nil => rfl
  | cons slot slots ih =>
    cases slot with
    | none => rfl
    | some y => exact congrArg (· + 1) ih

theorem fill_map_some (slots : List (Option α)) :
    fill x (xs.map some ++ slots) = xs.map some ++ fill x slots := by
  induction xs with
  | nil => rfl
  | cons y xs ih => exact congrArg (some y :: ·) ih

/-- The first free slot is the one behind the list. -/
theorem fill_pack (h : xs.length < n) : fill x (pack n xs) = pack n (xs ++ [x]) := by
  obtain ⟨k, hk⟩ : ∃ k, n - xs.length = k + 1 := ⟨n - xs.length - 1, by omega⟩
  have hrest : n - (xs ++ [x]).length = k := by
    rw [List.length_append, List.length_singleton]
    omega
  rw [pack, pack, fill_map_some, hk, hrest, List.replicate_succ, List.map_append,
    List.append_assoc]
  rfl

theorem mem_pack : some x ∈ pack n xs ↔ x ∈ xs := by
  rw [pack, List.mem_append, List.mem_map]
  constructor
  · rintro (⟨y, hy, h⟩ | h)
    · cases h
      exact hy
    · cases (List.eq_of_mem_replicate h)
  · intro h
    exact .inl ⟨x, h, rfl⟩

theorem filterMap_pack : (pack n xs).filterMap id = xs := by
  have hrest : (List.replicate (n - xs.length) (none : Option α)).filterMap id = [] :=
    List.filterMap_eq_nil_iff.mpr fun a ha => List.eq_of_mem_replicate ha
  rw [pack, List.filterMap_append, List.filterMap_map, hrest, List.append_nil]
  exact List.filterMap_some

theorem countP_pack : (pack n xs).countP Option.isSome = xs.length := by
  rw [pack, List.countP_append, List.countP_map, List.countP_replicate]
  simp

theorem head?_pack (h : 0 < n) : (pack n xs).head? = some xs.head? := by
  cases xs with
  | nil =>
    obtain ⟨k, rfl⟩ : ∃ k, n = k + 1 := ⟨n - 1, by omega⟩
    rfl
  | cons y xs => rfl

/-! ## Room for one more

Counting: distinct values and one more that is not among them are at most as many as there are
values at all. -/

/-- Distinct values leave a slot for each that is not among them. -/
theorem length_lt_of_fresh [Fintype α] (hcard : Fintype.card α ≤ n) (hxs : xs.Nodup)
    (hx : x ∉ xs) : xs.length < n := by
  have h : (x :: xs).length ≤ Fintype.card α := (List.nodup_cons.mpr ⟨hx, hxs⟩).length_le_card
  rw [List.length_cons] at h
  omega

/-! ## Values put in

Putting a value in is appending it unless it is there, and so keeps the list without repeats.
What several values put in come to depends on first occurrences alone. -/

variable [DecidableEq α]

/-- `x` behind the others, unless it is there. -/
def insertNew (xs : List α) (x : α) : List α := if x ∈ xs then xs else xs ++ [x]

/-- The first occurrences of `ys` that are not in `xs`, behind `xs`. -/
def insertAll (xs ys : List α) : List α := ys.foldl insertNew xs

theorem nodup_insertNew (h : xs.Nodup) : (insertNew xs x).Nodup := by
  unfold insertNew
  split
  · exact h
  · next hx =>
    rw [List.nodup_append]
    refine ⟨h, List.nodup_singleton x, ?_⟩
    intro a ha b hb hab
    rw [List.mem_singleton.mp hb] at hab
    exact hx (hab ▸ ha)

theorem nodup_insertAll (h : xs.Nodup) : (insertAll xs ys).Nodup := by
  induction ys generalizing xs with
  | nil => exact h
  | cons y ys ih => exact ih (nodup_insertNew h)

theorem mem_insertNew : y ∈ insertNew xs x ↔ y ∈ xs ∨ y = x := by
  unfold insertNew
  split
  · next hx =>
    constructor
    · exact .inl
    · rintro (h | rfl)
      · exact h
      · exact hx
  · rw [List.mem_append, List.mem_singleton]

theorem mem_insertAll : y ∈ insertAll xs ys ↔ y ∈ xs ∨ y ∈ ys := by
  induction ys generalizing xs with
  | nil => simp [insertAll]
  | cons x ys ih =>
    have h : y ∈ insertAll (insertNew xs x) ys ↔ y ∈ insertNew xs x ∨ y ∈ ys := ih
    rw [mem_insertNew, or_assoc] at h
    rw [List.mem_cons]
    exact h

/-- Distinct values that are not there are all put in. -/
theorem insertAll_of_disjoint (hys : ys.Nodup) (h : ∀ y ∈ ys, y ∉ xs) :
    insertAll xs ys = xs ++ ys := by
  induction ys generalizing xs with
  | nil => exact (List.append_nil xs).symm
  | cons y ys ih =>
    have hy : insertNew xs y = xs ++ [y] := if_neg (h y (List.mem_cons_self ..))
    have hrest : ∀ z ∈ ys, z ∉ xs ++ [y] := by
      intro z hz hmem
      rcases List.mem_append.mp hmem with hmem | hmem
      · exact h z (List.mem_cons_of_mem y hz) hmem
      · rw [List.mem_singleton.mp hmem] at hz
        exact (List.nodup_cons.mp hys).1 hz
    show insertAll (insertNew xs y) ys = _
    rw [hy, ih (List.nodup_cons.mp hys).2 hrest, List.append_assoc]
    rfl

/-- The first occurrences of a list without repeats are the list. -/
theorem insertAll_of_nodup (h : ys.Nodup) : insertAll [] ys = ys :=
  insertAll_of_disjoint h (by simp)

end Iso15118.Lib
