import Mathlib.Data.Fintype.EquivFin
import Mathlib.Data.List.Nodup
import Iso15118.Lib.Check

/-!
# Greedy matching with a used-set

Entries of one list claim, one after another, places in a second list that nobody has claimed
before. The claim may fail, and then the whole matching does. If it never fails and the lists are
equally long, nothing is left over on either side: the matching is a bijection, however often
values repeat in either list.

* **`claimEach`** — the loop, with the flags of the places already taken;
* **`exists_places`** — the places claimed are distinct and were free;
* **`exists_equiv_of_claimEach`** — the bijection;
* **`claimEach_map`** — a matching that cannot fail: each entry finds the one place that is its own.
-/

namespace Iso15118.Lib

universe u v

variable {ε : Type u} {α β : Type v}

/-- Each entry claims a place, which is marked used before the next entry is looked at. The
result pairs each entry with what stood in its place. -/
def claimEach (claim : List Bool → α → Except ε (Nat × β)) :
    List Bool → List α → Except ε (List (α × β))
  | _, [] => .ok []
  | used, x :: xs =>
      match claim used x with
      | .error e => .error e
      | .ok (place, y) =>
          match claimEach claim (used.set place true) xs with
          | .error e => .error e
          | .ok rest => .ok ((x, y) :: rest)

variable {claim : List Bool → α → Except ε (Nat × β)} {used : List Bool} {xs : List α}
  {ys : List β} {paired : List (α × β)}

theorem claimEach_cons {x : α} (h : claimEach claim used (x :: xs) = .ok paired) :
    ∃ place y rest, claim used x = .ok (place, y)
      ∧ claimEach claim (used.set place true) xs = .ok rest ∧ paired = (x, y) :: rest := by
  unfold claimEach at h
  split at h
  · cases h
  · next place y hclaim =>
    split at h
    · cases h
    · next rest hrest =>
      cases h
      exact ⟨place, y, rest, hclaim, hrest, rfl⟩

/-- What each claim guarantees holds of each pair. -/
theorem forall_mem_of_claimEach (Fits : α → β → Prop)
    (hclaim : ∀ used x place y, claim used x = .ok (place, y) → Fits x y)
    (h : claimEach claim used xs = .ok paired) : ∀ e ∈ paired, Fits e.1 e.2 := by
  induction xs generalizing used paired with
  | nil =>
    cases h
    intro e he
    cases he
  | cons x xs ih =>
    obtain ⟨place, y, rest, hplace, hrest, rfl⟩ := claimEach_cons h
    intro e he
    rcases List.mem_cons.mp he with rfl | he
    · exact hclaim _ _ _ _ hplace
    · exact ih hrest e he

/-- The places claimed are distinct, and were free to begin with. Induction on the entries, over
the flags. -/
theorem exists_places
    (hclaim : ∀ used x place y, claim used x = .ok (place, y) →
      ys[place]? = some y ∧ used[place]? = some false)
    (h : claimEach claim used xs = .ok paired) :
    ∃ places : List Nat, places.Nodup ∧ (∀ p ∈ places, used[p]? = some false)
      ∧ paired.map Prod.fst = xs ∧ paired.map (fun e => some e.2) = places.map (ys[·]?) := by
  induction xs generalizing used paired with
  | nil =>
    cases h
    exact ⟨[], List.nodup_nil, fun p hp => (by cases hp), rfl, rfl⟩
  | cons x xs ih =>
    obtain ⟨place, y, rest, hplace, hrest, rfl⟩ := claimEach_cons h
    obtain ⟨hy, hfree⟩ := hclaim _ _ _ _ hplace
    obtain ⟨places, hnodup, hused, hfst, hsnd⟩ := ih hrest
    have htaken : (used.set place true)[place]? = some true := by
      rw [List.getElem?_set_self (List.getElem?_eq_some_iff.mp hfree).1]
    refine ⟨place :: places, List.nodup_cons.mpr ⟨?_, hnodup⟩, ?_, ?_, ?_⟩
    · intro hmem
      have hstill := hused place hmem
      rw [htaken] at hstill
      cases hstill
    · intro p hp
      rcases List.mem_cons.mp hp with rfl | hp
      · exact hfree
      · by_cases hpp : place = p
        · rw [← hpp]
          exact hfree
        · rw [← List.getElem?_set_ne hpp]
          exact hused p hp
    · rw [List.map_cons, hfst]
    · rw [List.map_cons, List.map_cons, hsnd, hy]

/-- **A complete matching is a bijection.** When every entry has claimed a place and the lists are
equally long, every place has been claimed. -/
theorem exists_equiv_of_claimEach
    (hclaim : ∀ used x place y, claim used x = .ok (place, y) →
      ys[place]? = some y ∧ used[place]? = some false)
    (hlen : xs.length = ys.length) (h : claimEach claim used xs = .ok paired) :
    ∃ σ : Fin xs.length ≃ Fin ys.length, ∀ i, (xs.get i, ys.get (σ i)) ∈ paired := by
  obtain ⟨places, hnodup, -, hfst, hsnd⟩ := exists_places hclaim h
  have hpaired : paired.length = xs.length := by rw [← hfst, List.length_map]
  have hplaces : places.length = xs.length := by
    have hlengths := congrArg List.length hsnd
    rw [List.length_map, List.length_map] at hlengths
    omega
  -- the place of each entry, and what stands there
  have hat (i : Fin xs.length) : ∃ y, paired[i.1]? = some (xs.get i, y)
      ∧ ys[places.get (i.cast hplaces.symm)]? = some y := by
    obtain ⟨e, he⟩ : ∃ e, paired[i.1]? = some e :=
      ⟨_, List.getElem?_eq_getElem (by omega)⟩
    have hx : e.1 = xs.get i := by
      have hmap := congrArg (·[i.1]?) hfst
      simp only [List.getElem?_map, he, Option.map_some] at hmap
      rw [List.getElem?_eq_getElem i.2] at hmap
      exact Option.some.inj hmap
    have hy := congrArg (·[i.1]?) hsnd
    simp only [List.getElem?_map, he, Option.map_some] at hy
    rw [List.getElem?_eq_getElem (by omega), Option.map_some] at hy
    exact ⟨e.2, by rw [he, ← hx], (Option.some.inj hy).symm⟩
  have hlt (i : Fin xs.length) : places.get (i.cast hplaces.symm) < ys.length := by
    obtain ⟨y, -, hy⟩ := hat i
    exact (List.getElem?_eq_some_iff.mp hy).1
  let place (i : Fin xs.length) : Fin ys.length := ⟨places.get (i.cast hplaces.symm), hlt i⟩
  -- no place is claimed twice, and there are as many places as entries
  have hinjective : Function.Injective place := by
    intro i j hij
    have hsame := List.nodup_iff_injective_get.mp hnodup (Fin.val_eq_of_eq hij)
    exact Fin.cast_injective _ hsame
  have hbijective : Function.Bijective place :=
    (Fintype.bijective_iff_injective_and_card place).mpr ⟨hinjective, by simp [hlen]⟩
  refine ⟨Equiv.ofBijective place hbijective, fun i => ?_⟩
  obtain ⟨y, hmem, hy⟩ := hat i
  have hget : ys.get (place i) = y := by
    rw [List.getElem?_eq_getElem (hlt i)] at hy
    exact Option.some.inj hy
  rw [Equiv.ofBijective_apply, hget]
  exact List.mem_of_getElem? hmem

/-- **Every entry finds its own.** Entries are made from distinct values, each of which stands in
the second list. If an entry can claim its value as long as no place of it is taken, no entry is
in another's way. Induction on the values, over the flags. -/
theorem claimEach_map {es : List β} (g : β → α)
    (hclaim : ∀ used : List Bool, ∀ e ∈ es, (∀ i : Nat, ys[i]? = some e → used[i]? = some false) →
      ∃ place, ys[place]? = some e ∧ claim used (g e) = .ok (place, e))
    (hnodup : es.Nodup) (hfree : ∀ e ∈ es, ∀ i : Nat, ys[i]? = some e → used[i]? = some false) :
    claimEach claim used (es.map g) = .ok (es.map fun e => (g e, e)) := by
  induction es generalizing used with
  | nil => rfl
  | cons e es ih =>
    obtain ⟨hnew, hnodup⟩ := List.nodup_cons.mp hnodup
    have hmem : e ∈ e :: es := List.mem_cons_self ..
    obtain ⟨place, hplace, he⟩ := hclaim used e hmem (hfree e hmem)
    have hrest : claimEach claim (used.set place true) (es.map g)
        = .ok (es.map fun e => (g e, e)) := by
      refine ih (fun used e' he' => hclaim used e' (List.mem_cons_of_mem _ he')) hnodup ?_
      intro e' he' i hi
      -- the place just taken is not one of a later value's
      have hne : place ≠ i := by
        intro heq
        rw [heq, hi] at hplace
        cases hplace
        exact hnew he'
      rw [List.getElem?_set_ne hne]
      exact hfree e' (List.mem_cons_of_mem _ he') i hi
    rw [List.map_cons, List.map_cons]
    unfold claimEach
    rw [he]
    simp only
    rw [hrest]

end Iso15118.Lib
