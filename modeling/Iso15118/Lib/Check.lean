import Mathlib.Data.List.Forall2

/-!
# Chains of checks

Fallible code is a chain of checks in `Except`, each passing what it read to the next or ending
the whole with its error. These lemmas take a chain that succeeded apart: what each check
returned, and that none of them failed.
-/

namespace Iso15118.Lib

universe u v w

variable {ε : Type u} {α β : Type v}

/-- A check and the rest of the chain both succeeded. -/
theorem bind_eq_ok {x : Except ε α} {f : α → Except ε β} {b : β} :
    x >>= f = .ok b ↔ ∃ a, x = .ok a ∧ f a = .ok b := by
  constructor
  · intro h
    cases x with
    | error e => cases h
    | ok a => exact ⟨a, rfl, h⟩
  · rintro ⟨a, rfl, h⟩
    exact h

/-- An error that neither the check nor the rest of the chain reports. -/
theorem bind_ne_error {x : Except ε α} {f : α → Except ε β} {e : ε} (hx : x ≠ .error e)
    (hf : ∀ a, f a ≠ .error e) : x >>= f ≠ .error e := by
  cases x with
  | error e' => exact fun h => hx (by cases h; rfl)
  | ok a => exact hf a

/-- A result read as an option is the result. -/
theorem toOption_eq_some {x : Except ε α} {a : α} : x.toOption = some a ↔ x = .ok a := by
  cases x with
  | error e => exact ⟨fun h => (by cases h), fun h => (by cases h)⟩
  | ok b => exact ⟨fun h => (by cases h; rfl), fun h => (by cases h; rfl)⟩

/-- Two branches that go on the same way are one branch and what follows it. -/
theorem branch_bind {c : Prop} [Decidable c] (x y : Except ε α) (f : α → Except ε β) :
    (if c then x >>= f else y >>= f) = (if c then x else y) >>= f := by
  by_cases h : c
  · rw [if_pos h, if_pos h]
  · rw [if_neg h, if_neg h]

/-- A refusal that was not taken. -/
theorem refuse_eq_ok {c : Prop} [Decidable c] {e : ε} {x : Except ε α} {a : α} :
    (if c then .error e else x) = .ok a ↔ ¬ c ∧ x = .ok a := by
  by_cases h : c
  · rw [if_pos h]
    exact ⟨fun hx => (by cases hx), fun hx => absurd h hx.1⟩
  · rw [if_neg h]
    exact ⟨fun hx => ⟨h, hx⟩, fun hx => hx.2⟩

/-- A condition that was met. -/
theorem require_eq_ok {c : Prop} [Decidable c] {e : ε} {x : Except ε α} {a : α} :
    (if c then x else .error e) = .ok a ↔ c ∧ x = .ok a := by
  by_cases h : c
  · rw [if_pos h]
    exact ⟨fun hx => ⟨h, hx⟩, fun hx => hx.2⟩
  · rw [if_neg h]
    exact ⟨fun hx => (by cases hx), fun hx => absurd hx.1 h⟩

/-- A check whose error is reported as another one. -/
@[simp] theorem mapError_eq_ok {ε' : Type w} {x : Except ε α} {f : ε → ε'} {a : α} :
    x.mapError f = .ok a ↔ x = .ok a := by
  cases x with
  | error e => exact ⟨fun h => (by cases h), fun h => (by cases h)⟩
  | ok b => exact ⟨fun h => (by cases h; rfl), fun h => (by cases h; rfl)⟩

/-- A check over a whole list succeeds when it succeeds entry by entry. -/
theorem mapM_eq_ok {f : α → Except ε β} {xs : List α} {ys : List β} :
    xs.mapM f = .ok ys ↔ List.Forall₂ (fun x y => f x = .ok y) xs ys := by
  induction xs generalizing ys with
  | nil =>
    rw [List.mapM_nil, List.forall₂_nil_left_iff]
    exact ⟨fun h => (by cases h; rfl), fun h => (by rw [h]; rfl)⟩
  | cons x xs ih =>
    rw [List.mapM_cons, bind_eq_ok, List.forall₂_cons_left_iff]
    constructor
    · rintro ⟨y, hy, h⟩
      obtain ⟨zs, hzs, h⟩ := bind_eq_ok.mp h
      cases h
      exact ⟨y, zs, hy, ih.mp hzs, rfl⟩
    · rintro ⟨y, zs, hy, hzs, rfl⟩
      exact ⟨y, hy, bind_eq_ok.mpr ⟨zs, ih.mpr hzs, rfl⟩⟩

/-- The same of what fails without an error. -/
theorem mapM_eq_some {f : α → Option β} {xs : List α} {ys : List β} :
    xs.mapM f = some ys ↔ List.Forall₂ (fun x y => f x = some y) xs ys := by
  induction xs generalizing ys with
  | nil =>
    rw [List.mapM_nil, List.forall₂_nil_left_iff]
    exact ⟨fun h => (by cases h; rfl), fun h => (by rw [h]; rfl)⟩
  | cons x xs ih =>
    rw [List.mapM_cons, Option.bind_eq_bind, Option.bind_eq_some_iff, List.forall₂_cons_left_iff]
    constructor
    · rintro ⟨y, hy, h⟩
      obtain ⟨zs, hzs, h⟩ := Option.bind_eq_some_iff.mp h
      cases h
      exact ⟨y, zs, hy, ih.mp hzs, rfl⟩
    · rintro ⟨y, zs, hy, hzs, rfl⟩
      exact ⟨y, hy, Option.bind_eq_some_iff.mpr ⟨zs, ih.mpr hzs, rfl⟩⟩

/-- What has a value for each entry, from some point on, has one for the list. -/
theorem exists_mapM {n : Nat} {g : Nat → α → Option β} {xs : List α}
    (h : ∀ x ∈ xs, ∃ y, ∀ m, n ≤ m → g m x = some y) :
    ∃ ys, ∀ m, n ≤ m → xs.mapM (g m) = some ys := by
  induction xs with
  | nil => exact ⟨[], fun m _ => mapM_eq_some.mpr .nil⟩
  | cons x xs ih =>
    obtain ⟨hx, hxs⟩ := List.forall_mem_cons.mp h
    obtain ⟨y, hy⟩ := hx
    obtain ⟨ys, hys⟩ := ih hxs
    exact ⟨y :: ys, fun m hm => mapM_eq_some.mpr (.cons (hy m hm) (mapM_eq_some.mp (hys m hm)))⟩

/-- Two facts about the entries of a list and those of another, at one of them. -/
theorem exists_of_forall₂ {R S : α → β → Prop} {xs : List α} {ys : List β} {x : α}
    (h : List.Forall₂ R xs ys) (h' : List.Forall₂ S xs ys) (hx : x ∈ xs) : ∃ y, R x y ∧ S x y := by
  induction h with
  | nil => cases hx
  | @cons a b _ _ hab _ ih =>
    obtain ⟨hab', h'⟩ := List.forall₂_cons.mp h'
    rcases List.mem_cons.mp hx with rfl | hx
    · exact ⟨b, hab, hab'⟩
    · exact ih h' hx

/-- A check made of every entry of a list. -/
theorem forM_eq_ok {f : α → Except ε Unit} {xs : List α} :
    xs.forM f = .ok () ↔ ∀ x ∈ xs, f x = .ok () := by
  induction xs with
  | nil => exact ⟨fun _ x hx => (by cases hx), fun _ => rfl⟩
  | cons x xs ih =>
    rw [List.forall_mem_cons]
    constructor
    · intro h
      obtain ⟨_, hx, hxs⟩ := bind_eq_ok.mp h
      exact ⟨hx, ih.mp hxs⟩
    · rintro ⟨hx, hxs⟩
      exact bind_eq_ok.mpr ⟨(), hx, ih.mpr hxs⟩

/-- The first entry that fails a check is the one that is reported. -/
theorem forM_eq_error {f : α → Except ε Unit} {xs : List α} {e : ε} :
    xs.forM f = .error e ↔ ∃ before x after, xs = before ++ x :: after
      ∧ (∀ y ∈ before, f y = .ok ()) ∧ f x = .error e := by
  induction xs with
  | nil =>
    refine ⟨fun h => (by cases h), ?_⟩
    rintro ⟨before, x, after, h, -⟩
    cases List.append_eq_nil_iff.mp h.symm |>.2
  | cons x xs ih =>
    have hcons : (x :: xs).forM f = f x >>= fun _ => xs.forM f := rfl
    constructor
    · intro h
      -- the first check that fails is the answer
      cases hx : f x with
      | error e' =>
        rw [hcons, hx] at h
        cases h
        exact ⟨[], x, xs, rfl, fun y hy => (by cases hy), hx⟩
      | ok u =>
        rw [hcons, hx] at h
        obtain ⟨before, y, after, rfl, hbefore, hy⟩ := ih.mp h
        refine ⟨x :: before, y, after, rfl, List.forall_mem_cons.mpr ⟨hx, hbefore⟩, hy⟩
    · rintro ⟨before, y, after, heq, hbefore, hy⟩
      cases before with
      | nil =>
        obtain ⟨rfl, rfl⟩ := List.cons.inj heq
        rw [hcons, hy]
        rfl
      | cons x' before =>
        obtain ⟨rfl, rfl⟩ := List.cons.inj heq
        obtain ⟨hx, hbefore⟩ := List.forall_mem_cons.mp hbefore
        rw [hcons, hx]
        exact ih.mpr ⟨before, y, after, rfl, hbefore, hy⟩

/-- An error that no turn of a loop reports. -/
theorem foldlM_ne_error {f : β → α → Except ε β} {e : ε} (h : ∀ b a, f b a ≠ .error e)
    (xs : List α) (b : β) : xs.foldlM f b ≠ .error e := by
  induction xs generalizing b with
  | nil => exact fun hnil => by cases hnil
  | cons x xs ih =>
    rw [List.foldlM_cons]
    exact bind_ne_error (h b x) ih

/-- No entry of a numbered list meets a test that looks at the entry alone. -/
theorem find?_zipIdx_eq_none {p : α → Bool} {xs : List α} :
    xs.zipIdx.find? (fun entry => p entry.1) = none ↔ ∀ x ∈ xs, ¬ p x = true := by
  rw [List.find?_eq_none]
  constructor
  · intro h x hx
    rw [← List.zipIdx_map_fst 0 xs] at hx
    obtain ⟨entry, hentry, rfl⟩ := List.mem_map.mp hx
    exact h entry hentry
  · intro h entry hentry
    exact h entry.1 (List.fst_mem_of_mem_zipIdx hentry)

end Iso15118.Lib
