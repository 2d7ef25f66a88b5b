import Mathlib.Order.Lattice

/-!
# The first of the least

Of the entries of a list that qualify, the one with the least key, and of several with that key the
first. Two equal entries are told apart by their places.

* **`FirstLeast`** — the entry, with **`FirstLeast.unique`**;
* **`Winner`** — what a single pass over the list has to hold on to, with **`Winner.concat`**: one
  more entry.
-/

namespace Iso15118.Lib

universe u v

variable {α : Type u} {κ : Type v} [LinearOrder κ] {eligible : α → Prop} {key : α → κ}
  {l : List α} {a b : α}

/-- `a` qualifies, and every entry that does comes after it in the order of keys and places. -/
def FirstLeast (eligible : α → Prop) (key : α → κ) (l : List α) (a : α) : Prop :=
  ∃ i : Nat, l[i]? = some a ∧ eligible a ∧
    ∀ (j : Nat) (b : α), l[j]? = some b → eligible b → key a < key b ∨ (key a = key b ∧ i ≤ j)

theorem FirstLeast.unique (ha : FirstLeast eligible key l a) (hb : FirstLeast eligible key l b) :
    a = b := by
  obtain ⟨i, hi, hea, hleast⟩ := ha
  obtain ⟨j, hj, heb, hleast'⟩ := hb
  have hij : i = j := by
    rcases hleast j b hj heb with hlt | ⟨heq, hle⟩
    · rcases hleast' i a hi hea with hlt' | ⟨heq', -⟩
      · exact absurd hlt' (lt_asymm hlt)
      · exact absurd heq' hlt.ne'
    · rcases hleast' i a hi hea with hlt' | ⟨-, hle'⟩
      · exact absurd heq hlt'.ne'
      · exact Nat.le_antisymm hle hle'
  rw [hij, hj] at hi
  exact (Option.some.inj hi).symm

/-- The winner among the entries so far, if any of them qualifies. -/
def Winner (eligible : α → Prop) (key : α → κ) (l : List α) : Option α → Prop
  | none => ∀ a ∈ l, ¬ eligible a
  | some a => FirstLeast eligible key l a

theorem getElem?_concat_cases {i : Nat} (h : (l ++ [b])[i]? = some a) :
    l[i]? = some a ∨ (i = l.length ∧ b = a) := by
  rw [List.getElem?_append] at h
  split at h
  · exact .inl h
  · rw [List.getElem?_singleton] at h
    split at h
    · exact .inr ⟨by omega, Option.some.inj h⟩
    · cases h

theorem getElem?_concat {i : Nat} (h : l[i]? = some a) : (l ++ [b])[i]? = some a := by
  rw [List.getElem?_append_left (List.getElem?_eq_some_iff.mp h).1]
  exact h

/-- The winner stays, where the entry does not qualify or has no smaller key. -/
theorem FirstLeast.keep (h : FirstLeast eligible key l a) (hb : eligible b → key a ≤ key b) :
    FirstLeast eligible key (l ++ [b]) a := by
  obtain ⟨i, hi, hea, hleast⟩ := h
  refine ⟨i, getElem?_concat hi, hea, fun j c hj hc => ?_⟩
  rcases getElem?_concat_cases hj with hj | ⟨rfl, rfl⟩
  · exact hleast j c hj hc
  · rcases (hb hc).lt_or_eq with hlt | heq
    · exact .inl hlt
    · exact .inr ⟨heq, Nat.le_of_lt (List.getElem?_eq_some_iff.mp hi).1⟩

/-- The entry takes over, where all that qualify have greater keys. -/
theorem FirstLeast.last (hb : eligible b) (h : ∀ a ∈ l, eligible a → key b < key a) :
    FirstLeast eligible key (l ++ [b]) b := by
  refine ⟨l.length, List.getElem?_concat_length, hb, fun j c hj hc => ?_⟩
  rcases getElem?_concat_cases hj with hj | ⟨rfl, rfl⟩
  · exact .inl (h c (List.mem_of_getElem? hj) hc)
  · exact .inr ⟨rfl, Nat.le_refl _⟩

theorem FirstLeast.key_le (h : FirstLeast eligible key l a) (hb : b ∈ l) (heb : eligible b) :
    key a ≤ key b := by
  obtain ⟨i, -, -, hleast⟩ := h
  obtain ⟨j, hj⟩ := List.mem_iff_getElem?.mp hb
  rcases hleast j b hj heb with hlt | ⟨heq, -⟩
  · exact hlt.le
  · exact heq.le

/-- **One more entry.** It wins over none, and over one with a greater key. -/
theorem Winner.concat {best best' : Option α} (h : Winner eligible key l best)
    (hskip : ¬ eligible b → best' = best)
    (hfirst : eligible b → best = none → best' = some b)
    (hnext : ∀ a, eligible b → best = some a → best' = if key a ≤ key b then some a else some b) :
    Winner eligible key (l ++ [b]) best' := by
  by_cases hb : eligible b
  · cases best with
    | none =>
      rw [hfirst hb rfl]
      exact FirstLeast.last hb fun a ha hea => absurd hea (h a ha)
    | some a =>
      rw [hnext a hb rfl]
      split
      · next hle => exact FirstLeast.keep h fun _ => hle
      · next hlt =>
        exact FirstLeast.last hb fun c hc hec =>
          (not_le.mp hlt).trans_le (FirstLeast.key_le h hc hec)
  · rw [hskip hb]
    cases best with
    | none =>
      intro c hc
      rcases List.mem_append.mp hc with hc | hc
      · exact h c hc
      · rw [List.mem_singleton.mp hc]
        exact hb
    | some a => exact FirstLeast.keep h fun heb => absurd heb hb

end Iso15118.Lib
