import Mathlib.Data.Finset.Card
import Mathlib.Logic.Relation

/-!
# Worklists

All that can be reached from the entries of a stack, where an entry that was taken before is passed
over. The graph may have cycles; it has finitely many nodes that anything leads to.

* **`Links`** — the successors of a node, with the nodes that are one;
* **`Links.explore`** — the loop, which ends because the nodes not taken become fewer;
* **`Links.mem_explore_iff`** — what it takes, and **`Links.nodup_explore`**: it takes it once.
-/

namespace Iso15118.Lib

universe u

/-- The successors of a node, in the order they are taken from the stack. -/
structure Links (α : Type u) where
  next : α → List α
  nodes : List α
  next_mem : ∀ a, ∀ b ∈ next a, b ∈ nodes

namespace Links

variable {α : Type u} {g : Links α} {out stack : List α} {a b : α}

def Edge (g : Links α) (a b : α) : Prop := b ∈ g.next a

variable [DecidableEq α]

/-- The nodes that could still be taken. -/
def remaining (g : Links α) (out stack : List α) : Nat :=
  ((g.nodes ++ stack).toFinset \ out.toFinset).card

theorem remaining_skip : g.remaining out stack ≤ g.remaining out (a :: stack) := by
  refine Finset.card_le_card (Finset.sdiff_subset_sdiff (fun x hx => ?_) (Finset.Subset.refl _))
  simp only [List.toFinset_append, List.toFinset_cons, Finset.mem_union, Finset.mem_insert] at hx ⊢
  tauto

theorem remaining_take (h : a ∉ out) :
    g.remaining (out ++ [a]) (g.next a ++ stack) < g.remaining out (a :: stack) := by
  refine Finset.card_lt_card (Finset.ssubset_iff_of_subset ?_ |>.mpr ⟨a, ?_, ?_⟩)
  · intro x hx
    simp only [Finset.mem_sdiff, List.mem_toFinset, List.mem_append, List.mem_cons,
      List.not_mem_nil, or_false, not_or] at hx ⊢
    refine ⟨?_, hx.2.1⟩
    rcases hx.1 with hx | hx | hx
    · exact .inl hx
    · exact .inl (g.next_mem a x hx)
    · exact .inr (.inr hx)
  · simp [h]
  · simp

/-- Takes the entry on top, unless it was taken before, and puts its successors in its place. -/
def explore (g : Links α) (out : List α) : List α → List α
  | [] => out
  | a :: stack =>
      if a ∈ out then g.explore out stack else g.explore (out ++ [a]) (g.next a ++ stack)
  termination_by stack => (g.remaining out stack, stack.length)
  decreasing_by
    · have hskip : g.remaining out stack ≤ g.remaining out (a :: stack) := remaining_skip
      rcases hskip.lt_or_eq with hlt | heq
      · exact Prod.Lex.left _ _ hlt
      · rw [heq]
        exact Prod.Lex.right _ (Nat.lt_succ_self _)
    · rename_i h
      exact Prod.Lex.left _ _ (remaining_take h)

/-- What was taken stays, and the rest can be reached. -/
theorem reach_of_mem_explore {x : α} (h : x ∈ g.explore out stack) :
    x ∈ out ∨ ∃ s ∈ stack, Relation.ReflTransGen g.Edge s x := by
  fun_induction explore g out stack with
  | case1 out => exact .inl h
  | case2 out a stack hin ih =>
    rcases ih h with hx | ⟨s, hs, hreach⟩
    · exact .inl hx
    · exact .inr ⟨s, List.mem_cons_of_mem _ hs, hreach⟩
  | case3 out a stack hnot ih =>
    rcases ih h with hx | ⟨s, hs, hreach⟩
    · rcases List.mem_append.mp hx with hx | hx
      · exact .inl hx
      · exact .inr ⟨a, List.mem_cons_self, by rw [List.mem_singleton.mp hx]⟩
    · rcases List.mem_append.mp hs with hs | hs
      · exact .inr ⟨a, List.mem_cons_self, hreach.head hs⟩
      · exact .inr ⟨s, List.mem_cons_of_mem _ hs, hreach⟩

/-- Every successor of what was taken is taken too, or is on the stack. -/
def Closed (g : Links α) (out stack : List α) : Prop :=
  ∀ a ∈ out, ∀ b, g.Edge a b → b ∈ out ∨ b ∈ stack

/-- What is explored is closed under the edges, and holds all that was known before. -/
theorem closed_explore (h : g.Closed out stack) :
    out ⊆ g.explore out stack ∧ stack ⊆ g.explore out stack
      ∧ g.Closed (g.explore out stack) [] := by
  fun_induction explore g out stack with
  | case1 out => exact ⟨List.Subset.refl _, List.nil_subset _, h⟩
  | case2 out a stack hin ih =>
    have hclosed : g.Closed out stack := by
      intro x hx b hedge
      rcases h x hx b hedge with hb | hb
      · exact .inl hb
      · rcases List.mem_cons.mp hb with rfl | hb
        · exact .inl hin
        · exact .inr hb
    obtain ⟨hout, hstack, hdone⟩ := ih hclosed
    exact ⟨hout, List.cons_subset.mpr ⟨hout hin, hstack⟩, hdone⟩
  | case3 out a stack hnot ih =>
    have hclosed : g.Closed (out ++ [a]) (g.next a ++ stack) := by
      intro x hx b hedge
      rcases List.mem_append.mp hx with hx | hx
      · rcases h x hx b hedge with hb | hb
        · exact .inl (List.mem_append_left _ hb)
        · rcases List.mem_cons.mp hb with rfl | hb
          · exact .inl (List.mem_append_right _ (List.mem_singleton_self _))
          · exact .inr (List.mem_append_right _ hb)
      · rw [List.mem_singleton.mp hx] at hedge
        exact .inr (List.mem_append_left _ hedge)
    obtain ⟨hout, hstack, hdone⟩ := ih hclosed
    refine ⟨fun x hx => hout (List.mem_append_left _ hx), List.cons_subset.mpr ⟨?_, ?_⟩, hdone⟩
    · exact hout (List.mem_append_right _ (List.mem_singleton_self _))
    · exact fun x hx => hstack (List.mem_append_right _ hx)

/-- **What is taken.** With the successors of what was taken before on the stack, it is all that
can be reached from there. -/
theorem mem_explore_iff (h : g.Closed out stack) {x : α} :
    x ∈ g.explore out stack ↔ x ∈ out ∨ ∃ s ∈ stack, Relation.ReflTransGen g.Edge s x := by
  obtain ⟨hout, hstack, hdone⟩ := closed_explore h
  refine ⟨reach_of_mem_explore, ?_⟩
  rintro (hx | ⟨s, hs, hreach⟩)
  · exact hout hx
  · induction hreach with
    | refl => exact hstack hs
    | tail _ hedge ih => exact (hdone _ ih _ hedge).resolve_right List.not_mem_nil

theorem nodup_explore (h : out.Nodup) : (g.explore out stack).Nodup := by
  fun_induction explore g out stack with
  | case1 out => exact h
  | case2 out a stack hin ih => exact ih h
  | case3 out a stack hnot ih =>
    refine ih (List.nodup_append.mpr ⟨h, List.nodup_singleton _, fun x hx y hy => ?_⟩)
    rw [List.mem_singleton.mp hy]
    rintro rfl
    exact hnot hx

end Links

end Iso15118.Lib
