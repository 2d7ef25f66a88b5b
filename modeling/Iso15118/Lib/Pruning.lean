import Mathlib.Data.List.Basic
import Mathlib.Data.Set.Basic

/-!
# Pruning

Of a list of candidates, each with what it needs, those that can all have it. What needs something
that is not there is taken out, which may leave others without what they need, so there are rounds
of it until nothing more has to go.

* **`prune`** — the loop, with a record of what stood in the way of each candidate taken out;
* **`mem_prune_iff`** — what is left is the largest set that has all it needs;
* **`prune_blocked`**, **`prune_recorded`** — the record is of those that are not left, and of
  something each of them needs that is not left either.
-/

namespace Iso15118.Lib

universe u

/-- What is left, and what was taken out, with the first thing it needed that was not there. -/
structure Pruned (α : Type u) where
  kept : List α
  blocked : List (α × Option α)

section Loop

variable {α : Type u} [DecidableEq α] (needs : α → List α)

/-- What needs something that is not there. -/
def doomed (s : Pruned α) : List α := s.kept.filter fun a => (needs a).any (· ∉ s.kept)

/-- One of them is taken out. -/
def takeOut (s : Pruned α) (a : α) : Pruned α where
  kept := s.kept.filter (· ≠ a)
  blocked := s.blocked ++ [(a, (needs a).find? (· ∉ s.kept))]

/-- So many rounds, or fewer if nothing has to go. -/
def pruneRounds : Nat → Pruned α → Pruned α
  | 0, s => s
  | n + 1, s =>
      if doomed needs s = [] then s else pruneRounds n ((doomed needs s).foldl (takeOut needs) s)

/-- Rounds until nothing has to go. There are not more of them than candidates. -/
def prune (candidates : List α) : Pruned α :=
  pruneRounds needs candidates.length ⟨candidates, []⟩

end Loop

variable {α : Type u} {needs : α → List α} {candidates : List α} {s : Pruned α} {a b : α}

/-- A set of candidates that has all it needs. -/
def SelfSufficient (needs : α → List α) (candidates : List α) (S : Set α) : Prop :=
  ∀ a ∈ S, a ∈ candidates ∧ ∀ b ∈ needs a, b ∈ S

/-- What can be said at any time: a candidate is left or on record, there is something in the way of
those on record, and what can have all it needs is left. -/
structure Pruned.Sound (needs : α → List α) (candidates : List α) (s : Pruned α) : Prop where
  kept : ∀ a ∈ s.kept, a ∈ candidates
  recorded : ∀ a ∈ candidates, a ∈ s.kept ∨ ∃ b, (a, b) ∈ s.blocked
  blocked : ∀ e ∈ s.blocked, e.1 ∈ candidates ∧ e.1 ∉ s.kept ∧
    ∃ b ∈ needs e.1, b ∉ s.kept ∧ e.2 = some b
  largest : ∀ S, SelfSufficient needs candidates S → ∀ a ∈ S, a ∈ s.kept

variable [DecidableEq α]

theorem mem_doomed : a ∈ doomed needs s ↔ a ∈ s.kept ∧ ∃ b ∈ needs a, b ∉ s.kept := by
  simp [doomed]

theorem mem_kept_takeOut : b ∈ (takeOut needs s a).kept ↔ b ∈ s.kept ∧ b ≠ a := by
  simp [takeOut]

/-- Taking out what lacks something. -/
theorem Pruned.Sound.takeOut (h : s.Sound needs candidates) (ha : a ∈ candidates)
    (hlacks : ∃ b ∈ needs a, b ∉ s.kept) : (takeOut needs s a).Sound needs candidates where
  kept b hb := h.kept b (mem_kept_takeOut.mp hb).1
  recorded b hb := by
    by_cases heq : b = a
    · exact .inr ⟨_, List.mem_append_right _ (List.mem_singleton.mpr (congrArg (·, _) heq))⟩
    · rcases h.recorded b hb with hkept | ⟨c, hblocked⟩
      · exact .inl (mem_kept_takeOut.mpr ⟨hkept, heq⟩)
      · exact .inr ⟨c, List.mem_append_left _ hblocked⟩
  blocked e he := by
    have hless : ∀ {b}, b ∉ s.kept → b ∉ (Lib.takeOut needs s a).kept :=
      fun hnot hb => hnot (mem_kept_takeOut.mp hb).1
    rcases List.mem_append.mp he with he | he
    · obtain ⟨hin, hout, b, hneeds, hb, heq⟩ := h.blocked e he
      exact ⟨hin, hless hout, b, hneeds, hless hb, heq⟩
    · rw [List.mem_singleton.mp he]
      have hsome : ((needs a).find? (· ∉ s.kept)).isSome = true := by
        simpa [List.find?_isSome] using hlacks
      obtain ⟨b, hfind⟩ := Option.isSome_iff_exists.mp hsome
      have hb : b ∉ s.kept := by simpa using List.find?_some hfind
      have hgone : a ∉ (Lib.takeOut needs s a).kept := fun hin => (mem_kept_takeOut.mp hin).2 rfl
      exact ⟨ha, hgone, b, List.mem_of_find?_eq_some hfind, hless hb, hfind⟩
  largest S hS b hb := by
    refine mem_kept_takeOut.mpr ⟨h.largest S hS b hb, ?_⟩
    rintro rfl
    -- all that a member of the set needs is in the set, and so is left
    obtain ⟨c, hneeds, hc⟩ := hlacks
    exact hc (h.largest S hS c ((hS b hb).2 c hneeds))

/-- A round: what was lacking something at its start is lacking it still when it is taken out. -/
theorem Pruned.Sound.foldl_takeOut {l : List α} (h : s.Sound needs candidates)
    (hl : ∀ a ∈ l, a ∈ candidates ∧ ∃ b ∈ needs a, b ∉ s.kept) :
    (l.foldl (Lib.takeOut needs) s).Sound needs candidates := by
  induction l generalizing s with
  | nil => exact h
  | cons a l ih =>
    obtain ⟨⟨ha, hlacks⟩, hrest⟩ := List.forall_mem_cons.mp hl
    refine ih (h.takeOut ha hlacks) fun b hb => ?_
    obtain ⟨hin, c, hneeds, hc⟩ := hrest b hb
    exact ⟨hin, c, hneeds, fun hkept => hc (mem_kept_takeOut.mp hkept).1⟩

theorem Pruned.Sound.round (h : s.Sound needs candidates) :
    ((doomed needs s).foldl (Lib.takeOut needs) s).Sound needs candidates :=
  h.foldl_takeOut fun a ha => ⟨h.kept a (mem_doomed.mp ha).1, (mem_doomed.mp ha).2⟩

theorem Pruned.Sound.pruneRounds (n : Nat) (h : s.Sound needs candidates) :
    (pruneRounds needs n s).Sound needs candidates := by
  induction n generalizing s with
  | zero => exact h
  | succ n ih =>
    rw [Lib.pruneRounds]
    split
    · exact h
    · exact ih h.round

theorem length_foldl_takeOut_le (l : List α) (s : Pruned α) :
    (l.foldl (takeOut needs) s).kept.length ≤ s.kept.length := by
  induction l generalizing s with
  | nil => exact le_rfl
  | cons a l ih => exact (ih _).trans (List.length_filter_le _ _)

/-- A round that takes something out leaves less. -/
theorem length_round_lt (h : doomed needs s ≠ []) :
    ((doomed needs s).foldl (takeOut needs) s).kept.length < s.kept.length := by
  obtain ⟨a, l, heq⟩ := List.exists_cons_of_ne_nil h
  have ha : a ∈ s.kept := (mem_doomed.mp (heq ▸ List.mem_cons_self)).1
  rw [heq, List.foldl_cons]
  refine (length_foldl_takeOut_le l _).trans_lt ?_
  exact List.length_filter_lt_length_iff_exists.mpr ⟨a, ha, by simp⟩

/-- As many rounds as there are candidates are enough. -/
theorem doomed_pruneRounds {n : Nat} (h : s.kept.length ≤ n) :
    doomed needs (pruneRounds needs n s) = [] := by
  induction n generalizing s with
  | zero =>
    have hnil : s.kept = [] := List.eq_nil_of_length_eq_zero (Nat.le_zero.mp h)
    simp [pruneRounds, doomed, hnil]
  | succ n ih =>
    rw [pruneRounds]
    split
    · next hnone => exact hnone
    · next hsome => exact ih (Nat.le_of_lt_succ ((length_round_lt hsome).trans_le h))

theorem sound_prune (needs : α → List α) (candidates : List α) :
    (prune needs candidates).Sound needs candidates :=
  Pruned.Sound.pruneRounds _ {
    kept := fun _ ha => ha
    recorded := fun _ ha => .inl ha
    blocked := fun _ he => absurd he List.not_mem_nil
    largest := fun _ hS a ha => (hS a ha).1 }

/-- What is left has all it needs. -/
theorem selfSufficient_prune (needs : α → List α) (candidates : List α) :
    SelfSufficient needs candidates {a | a ∈ (prune needs candidates).kept} := by
  refine fun a ha => ⟨(sound_prune needs candidates).kept a ha, fun b hb => ?_⟩
  by_contra hnot
  have hdoomed : a ∈ doomed needs (prune needs candidates) := mem_doomed.mpr ⟨ha, b, hb, hnot⟩
  have hnone : doomed needs (prune needs candidates) = [] :=
    doomed_pruneRounds (s := ⟨candidates, []⟩) le_rfl
  exact absurd (hnone ▸ hdoomed) List.not_mem_nil

/-- What is left is the largest set of candidates that has all it needs. -/
theorem mem_prune_iff :
    a ∈ (prune needs candidates).kept ↔ ∃ S, SelfSufficient needs candidates S ∧ a ∈ S := by
  constructor
  · exact fun h => ⟨_, selfSufficient_prune needs candidates, h⟩
  · intro ⟨S, hS, ha⟩
    exact (sound_prune needs candidates).largest S hS a ha

/-- What is on record is not left, and lacks what is on record with it. -/
theorem prune_blocked {e : α × Option α} (h : e ∈ (prune needs candidates).blocked) :
    e.1 ∈ candidates ∧ e.1 ∉ (prune needs candidates).kept ∧
      ∃ b ∈ needs e.1, b ∉ (prune needs candidates).kept ∧ e.2 = some b :=
  (sound_prune needs candidates).blocked e h

/-- A candidate that is not left is on record. -/
theorem prune_recorded (h : a ∈ candidates) (hout : a ∉ (prune needs candidates).kept) :
    ∃ b, (a, b) ∈ (prune needs candidates).blocked :=
  ((sound_prune needs candidates).recorded a h).resolve_left hout

end Iso15118.Lib
