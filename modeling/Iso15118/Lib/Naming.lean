import Mathlib.Data.List.Nodup
import Mathlib.Data.List.Perm.Subperm

/-!
# Names that are not taken

Names are given out one after another, and what they should be may be taken. Counting on from a name
comes to one that is not, before there have been more tries than names are taken.

* **`firstFree`** — the first spelling that is not taken, with **`firstFree_not_mem`**;
* **`assign`** — a name for each of a list of keys, with **`nodup_assign`**: none of them twice.
-/

namespace Iso15118.Lib

universe u v

variable {κ : Type u} {β : Type v}

/-- The first spelling from the `n`-th on that is not taken, of so many. -/
def firstFree [DecidableEq β] (spell : Nat → β) (taken : List β) : Nat → Nat → β
  | 0, n => spell n
  | tries + 1, n => if spell n ∈ taken then firstFree spell taken tries (n + 1) else spell n

/-- Each key is given what `choose` makes of it and of the names that are taken. -/
def assign (choose : List β → κ → β) : List β → List κ → List (κ × β)
  | _, [] => []
  | taken, k :: ks => (k, choose taken k) :: assign choose (choose taken k :: taken) ks

section Free

variable [DecidableEq β] {spell : Nat → β} {taken : List β}

theorem firstFree_of_exists {tries n : Nat} (h : ∃ k, n ≤ k ∧ k < n + tries ∧ spell k ∉ taken) :
    firstFree spell taken tries n ∉ taken := by
  induction tries generalizing n with
  | zero =>
    obtain ⟨k, hle, hlt, -⟩ := h
    omega
  | succ tries ih =>
    rw [firstFree]
    split
    · next htaken =>
      obtain ⟨k, hle, hlt, hfree⟩ := h
      have hne : n ≠ k := fun heq => hfree (heq ▸ htaken)
      exact ih ⟨k, by omega, by omega, hfree⟩
    · next hfree => exact hfree

/-- Of more spellings than names are taken, one is free. -/
theorem exists_free (hspell : Function.Injective spell) {tries : Nat}
    (htries : taken.length < tries) (n : Nat) :
    ∃ k, n ≤ k ∧ k < n + tries ∧ spell k ∉ taken := by
  by_contra hnone
  have hall : (List.range' n tries).map spell ⊆ taken := by
    intro name hname
    obtain ⟨k, hk, rfl⟩ := List.mem_map.mp hname
    obtain ⟨hle, hlt⟩ := List.mem_range'_1.mp hk
    by_contra hfree
    exact hnone ⟨k, hle, hlt, hfree⟩
  have hnodup : ((List.range' n tries).map spell).Nodup :=
    (List.nodup_range' (s := n) (n := tries)).map hspell
  have hlen : ((List.range' n tries).map spell).length ≤ taken.length :=
    (List.subperm_of_subset hnodup hall).length_le
  rw [List.length_map, List.length_range'] at hlen
  omega

theorem firstFree_not_mem (hspell : Function.Injective spell) {tries : Nat}
    (htries : taken.length < tries) (n : Nat) : firstFree spell taken tries n ∉ taken :=
  firstFree_of_exists (exists_free hspell htries n)

end Free

section Assign

variable {choose : List β → κ → β}

theorem map_fst_assign (taken : List β) (ks : List κ) :
    (assign choose taken ks).map Prod.fst = ks := by
  induction ks generalizing taken with
  | nil => rfl
  | cons k ks ih => rw [assign, List.map_cons, ih]

/-- Names that are free when they are given out are all different, and none of them was taken. -/
theorem nodup_assign (hchoose : ∀ taken k, choose taken k ∉ taken) (taken : List β) (ks : List κ) :
    ((assign choose taken ks).map Prod.snd).Nodup ∧
      ∀ name ∈ (assign choose taken ks).map Prod.snd, name ∉ taken := by
  induction ks generalizing taken with
  | nil => exact ⟨List.nodup_nil, fun name h => absurd h List.not_mem_nil⟩
  | cons k ks ih =>
    obtain ⟨hnodup, hfree⟩ := ih (choose taken k :: taken)
    rw [assign, List.map_cons]
    refine ⟨List.nodup_cons.mpr ⟨fun hin => hfree _ hin List.mem_cons_self, hnodup⟩, ?_⟩
    refine List.forall_mem_cons.mpr ⟨hchoose taken k, fun name hname htaken => ?_⟩
    exact hfree name hname (List.mem_cons_of_mem _ htaken)

end Assign

end Iso15118.Lib
