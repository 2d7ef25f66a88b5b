import Iso15118.Codegen.Determinise

/-!
# The order of event codes

The position of a production in its state is an event code, so the subset construction has to fix
it. A state of the grammar stands for the states of the automaton that the same words lead to, and
offers the events of their edges:

* **`Nfa.Made`** — the automata that can be put together, with **`Nfa.Made.ordered`**: the number an
  edge was made under is that edge's alone;
* **`LeastOrder`** — the first of the edges that are merged into one production, with
  **`leastOrder_gather`**;
* **`InOrder`** — declared events by their first edges, then the wildcard, then the end, with
  **`inOrder_listing`**;
* **`Listed`** — what the loop of the construction keeps;
* **`determinise_exact`** — the construction ends, keeps what the automaton spells, and lists the
  events of every state in order.
-/

namespace Iso15118.Codegen

open Lib

/-! ## Automata that can be put together

Whatever order the source calls its functions in, edges are numbered as they are made. That is
all the order of the productions rests on, so nothing is assumed of content models here. -/

namespace Nfa

/-- The functions that put an automaton together, with no edge for the end of an element. -/
inductive Made : Nfa → Prop where
  | new : Made .new
  | addState {nfa : Nfa} (h : Made nfa) : Made nfa.addState.2
  | edge {nfa : Nfa} {source dest : Nat} {event : Event} (h : Made nfa)
      (hsource : source < nfa.states.length) (hdest : dest < nfa.states.length)
      (hevent : event ≠ .endElement) : Made (nfa.edge source event dest)
  | epsilon {nfa : Nfa} {source dest : Nat} (h : Made nfa)
      (hsource : source < nfa.states.length) (hdest : dest < nfa.states.length) :
      Made (nfa.epsilon source dest)
  | enterContent {nfa : Nfa} {cursor : Nat} (h : Made nfa) (hcursor : cursor < nfa.states.length) :
      Made (Builder.enterContent nfa cursor)

/-- No edge of an automaton the builder makes leads out of it. -/
theorem Made.closed {nfa : Nfa} (h : Made nfa) : nfa.graph.Closed Builder.Labels := by
  induction h with
  | new =>
    intro q a t ht
    rw [graph_new_step] at ht
    cases ht
  | addState _ ih =>
    rw [graph_addState]
    exact ih.grow
  | edge _ hsource hdest hevent ih =>
    rw [graph_edge hsource]
    refine ih.connect hdest fun e he => ?_
    cases he
    exact hevent
  | epsilon _ hsource hdest ih =>
    rw [graph_epsilon hsource]
    exact ih.connect hdest fun e he => by cases he
  | enterContent _ hcursor ih =>
    rw [Builder.graph_enterContent hcursor]
    exact ih

/-- The edges of an automaton, of whatever state. -/
def HasEdge (nfa : Nfa) (order : Nat) (event : Event) : Prop :=
  ∃ q target, (order, event, target) ∈ (nfa.state q).edges

/-- Edges have numbers below the next one, and no number has two events. -/
structure Ordered (nfa : Nfa) : Prop where
  below : ∀ {order event}, nfa.HasEdge order event → order < nfa.order
  unique : ∀ {order event event'}, nfa.HasEdge order event → nfa.HasEdge order event' →
    event = event'

/-- An automaton with no edges but those of another one. -/
theorem Ordered.of_hasEdge {nfa nfa' : Nfa} (h : nfa.Ordered) (horder : nfa'.order = nfa.order)
    (hedge : ∀ {order event}, nfa'.HasEdge order event → nfa.HasEdge order event) :
    nfa'.Ordered := by
  refine ⟨fun he => ?_, fun he he' => h.unique (hedge he) (hedge he')⟩
  rw [horder]
  exact h.below (hedge he)

theorem hasEdge_edge {nfa : Nfa} {source dest order : Nat} {event e : Event}
    (hsource : source < nfa.states.length) (h : (nfa.edge source event dest).HasEdge order e) :
    nfa.HasEdge order e ∨ (order = nfa.order ∧ e = event) := by
  obtain ⟨q, target, hin⟩ := h
  rw [state_modify (m := nfa.edge source event dest) hsource rfl q] at hin
  split at hin
  · rcases List.mem_append.mp hin with hin | hin
    · exact .inl ⟨q, target, hin⟩
    · cases List.mem_singleton.mp hin
      exact .inr ⟨rfl, rfl⟩
  · exact .inl ⟨q, target, hin⟩

/-- Every edge of an automaton the builder makes has an order of its own, below the counter. -/
theorem Made.ordered {nfa : Nfa} (h : Made nfa) : nfa.Ordered := by
  induction h with
  -- no edge at all
  | new =>
    have hnone : ∀ {order event}, ¬ Nfa.new.HasEdge order event := by
      rintro order event ⟨q, target, hin⟩
      have htarget : target ∈ Nfa.new.graph.step q (some event) := ⟨order, hin⟩
      rw [graph_new_step] at htarget
      cases htarget
    exact ⟨fun he => absurd he hnone, fun he => absurd he hnone⟩
  | @addState nfa _ ih =>
    refine ih.of_hasEdge rfl ?_
    rintro order event ⟨q, target, hin⟩
    rw [state_addState] at hin
    split at hin
    · cases hin
    · exact ⟨q, target, hin⟩
  -- a new edge takes the counter, which then grows
  | edge _ hsource hdest hevent ih =>
    refine ⟨fun he => ?_, fun he he' => ?_⟩
    · rcases hasEdge_edge hsource he with hold | ⟨rfl, -⟩
      · exact Nat.lt_succ_of_lt (ih.below hold)
      · exact Nat.lt_succ_self _
    · rcases hasEdge_edge hsource he with hold | ⟨rfl, rfl⟩
      · rcases hasEdge_edge hsource he' with hold' | ⟨rfl, -⟩
        · exact ih.unique hold hold'
        · exact absurd (ih.below hold) (lt_irrefl _)
      · rcases hasEdge_edge hsource he' with hold' | ⟨-, rfl⟩
        · exact absurd (ih.below hold') (lt_irrefl _)
        · rfl
  -- an epsilon edge has no order
  | @epsilon nfa source dest _ hsource hdest ih =>
    refine ih.of_hasEdge rfl ?_
    rintro order event ⟨q, target, hin⟩
    rw [state_modify (m := nfa.epsilon source dest) hsource rfl q] at hin
    split at hin <;> exact ⟨q, target, hin⟩
  | @enterContent nfa cursor _ hcursor ih =>
    refine ih.of_hasEdge rfl ?_
    rintro order event ⟨q, target, hin⟩
    rw [state_modify (m := Builder.enterContent nfa cursor) hcursor rfl q] at hin
    split at hin <;> exact ⟨q, target, hin⟩

end Nfa

namespace Builder

/-! ## The first edge of a production

Edges with one event are merged into one entry under the least of their numbers. As no number has
two events, no two entries have one number. -/

/-- What a list of edges has been merged into: an entry has the least number of the edges with its
event, and there is an entry for each edge. -/
structure Merged (seen : List (Nat × Event × Nat)) (edges : List Labelled) : Prop where
  least : ∀ x ∈ edges, IsLeast {order | ∃ target, (order, x.2.1, target) ∈ seen} x.1
  all : ∀ x ∈ seen, x.2.1 ∈ edges.map fun y => y.2.1

/-- An entry is as it was, or lowered by the edge, or made for it. -/
theorem mem_addEdge {edges : List Labelled} (hnodup : (edges.map fun x => x.2.1).Nodup)
    {order target : Nat} {event : Event} {x : Labelled}
    (hx : x ∈ addEdge edges (order, event, target)) :
    (x ∈ edges ∧ x.2.1 ≠ event)
      ∨ (x.2.1 = event ∧ ∃ y ∈ edges, y.2.1 = event ∧ x.1 = Nat.min y.1 order)
      ∨ (x.2.1 = event ∧ x.1 = order ∧ event ∉ edges.map fun y => y.2.1) := by
  induction edges with
  | nil =>
    obtain rfl := List.mem_singleton.mp hx
    exact .inr (.inr ⟨rfl, rfl, List.not_mem_nil⟩)
  | cons y rest ih =>
    obtain ⟨order', event', targets⟩ := y
    rw [List.map_cons, List.nodup_cons] at hnodup
    obtain ⟨hfresh, hnodup⟩ := hnodup
    -- the entry of the event, with the lower of the two orders
    by_cases hsame : event' = event
    · rw [addEdge, if_pos hsame] at hx
      rcases List.mem_cons.mp hx with rfl | hx
      · exact .inr (.inl ⟨hsame, _, List.mem_cons_self, hsame, rfl⟩)
      · refine .inl ⟨List.mem_cons_of_mem _ hx, fun heq => hfresh ?_⟩
        show event' ∈ _
        rw [hsame, ← heq]
        exact List.mem_map_of_mem hx
    -- another one, which stays as it is
    · rw [addEdge, if_neg hsame] at hx
      rcases List.mem_cons.mp hx with rfl | hx
      · exact .inl ⟨List.mem_cons_self, hsame⟩
      · rcases ih hnodup hx with ⟨hin, hne⟩ | ⟨heq, z, hz, hevent, hmin⟩ | ⟨heq, hord, hnew⟩
        · exact .inl ⟨List.mem_cons_of_mem _ hin, hne⟩
        · exact .inr (.inl ⟨heq, z, List.mem_cons_of_mem _ hz, hevent, hmin⟩)
        · refine .inr (.inr ⟨heq, hord, fun hin => ?_⟩)
          rcases List.mem_cons.mp hin with hin | hin
          · exact hsame hin.symm
          · exact hnew hin

/-- Adding an edge loses no event. -/
theorem events_addEdge_subset {edges : List Labelled} (edge : Nat × Event × Nat) {e : Event}
    (h : e = edge.2.1 ∨ e ∈ edges.map fun x => x.2.1) :
    e ∈ (addEdge edges edge).map fun x => x.2.1 := by
  obtain ⟨order, event, target⟩ := edge
  induction edges with
  | nil =>
    rcases h with rfl | h
    · exact List.mem_cons_self
    · cases h
  | cons y rest ih =>
    obtain ⟨order', event', targets⟩ := y
    by_cases hsame : event' = event
    · rw [addEdge, if_pos hsame]
      rcases h with rfl | h
      · exact List.mem_cons.mpr (.inl hsame.symm)
      · exact h
    · rw [addEdge, if_neg hsame]
      rcases h with h | h
      · exact List.mem_cons_of_mem _ (ih (.inl h))
      · rcases List.mem_cons.mp h with h | h
        · exact List.mem_cons.mpr (.inl h)
        · exact List.mem_cons_of_mem _ (ih (.inr h))

/-- Adding an edge keeps the list merged: an event stays there once, under its least order. -/
theorem Merged.addEdge {seen : List (Nat × Event × Nat)} {edges : List Labelled}
    (h : Merged seen edges) (hnodup : (edges.map fun x => x.2.1).Nodup)
    (edge : Nat × Event × Nat) : Merged (seen ++ [edge]) (addEdge edges edge) := by
  obtain ⟨order, event, target⟩ := edge
  refine ⟨fun x hx => ?_, fun x hx => events_addEdge_subset _ ?_⟩
  · rcases mem_addEdge hnodup hx with ⟨hin, hne⟩ | ⟨rfl, y, hy, hevent, hmin⟩ | ⟨rfl, rfl, hnew⟩
    · -- an edge with another event
      obtain ⟨⟨t, ht⟩, hlow⟩ := h.least x hin
      refine ⟨⟨t, List.mem_append_left _ ht⟩, fun o ho => ?_⟩
      obtain ⟨t', ht'⟩ := ho
      rcases List.mem_append.mp ht' with ht' | ht'
      · exact hlow ⟨t', ht'⟩
      · have heq := List.mem_singleton.mp ht'
        exact absurd (congrArg (fun z => z.2.1) heq) hne
    · -- one more edge with the event of the entry
      obtain ⟨⟨t, ht⟩, hlow⟩ := h.least y hy
      rw [hevent] at ht hlow
      rw [hmin]
      refine ⟨?_, fun o ho => ?_⟩
      · rcases Nat.le_total y.1 order with hle | hle
        · exact ⟨t, List.mem_append_left _ (by rwa [show Nat.min y.1 order = y.1 from
            Nat.min_eq_left hle])⟩
        · exact ⟨target, List.mem_append_right _ (by
            rw [show Nat.min y.1 order = order from Nat.min_eq_right hle]
            exact List.mem_singleton.mpr rfl)⟩
      · obtain ⟨t', ht'⟩ := ho
        rcases List.mem_append.mp ht' with ht' | ht'
        · exact (Nat.min_le_left _ _).trans (hlow ⟨t', ht'⟩)
        · have heq := List.mem_singleton.mp ht'
          have hfirst : o = order := congrArg Prod.fst heq
          rw [hfirst]
          exact Nat.min_le_right _ _
    · -- the first edge with its event
      refine ⟨⟨target, List.mem_append_right _ (List.mem_singleton.mpr rfl)⟩, fun o ho => ?_⟩
      obtain ⟨t', ht'⟩ := ho
      rcases List.mem_append.mp ht' with ht' | ht'
      · exact absurd (h.all _ ht') hnew
      · have heq := List.mem_singleton.mp ht'
        exact (congrArg Prod.fst heq).ge
  -- every event seen is there
  · rcases List.mem_append.mp hx with hx | hx
    · exact .inr (h.all x hx)
    · exact .inl (by rw [List.mem_singleton.mp hx])

theorem merged_foldl (new seen : List (Nat × Event × Nat)) {edges : List Labelled}
    (h : Merged seen edges) (htidy : Tidy edges) :
    Merged (seen ++ new) (new.foldl Builder.addEdge edges) := by
  induction new generalizing seen edges with
  | nil =>
    rw [List.append_nil]
    exact h
  | cons x rest ih =>
    rw [List.foldl_cons, show seen ++ x :: rest = (seen ++ [x]) ++ rest by simp]
    exact ih _ (h.addEdge htidy.1 x) (tidy_addEdge htidy x)

/-- The first of the edges that leave a set of states with an event. -/
def LeastOrder (nfa : Nfa) (set : Finset Nat) (e : Event) (order : Nat) : Prop :=
  IsLeast {o | ∃ q ∈ set, ∃ target, (o, e, target) ∈ (nfa.state q).edges} order

section Gather

variable {nfa : Nfa} {set : Finset Nat}

theorem merged_gather :
    Merged ((nfa.ascending set).flatMap fun q => (nfa.state q).edges) (gather nfa set) := by
  have hempty : Merged [] [] := by
    refine ⟨fun x hx => ?_, fun x hx => ?_⟩ <;> cases hx
  have hall := merged_foldl ((nfa.ascending set).flatMap fun q => (nfa.state q).edges) [] hempty
    ⟨List.nodup_nil, fun x hx => by cases hx⟩
  rw [List.nil_append, List.foldl_flatMap] at hall
  exact hall

theorem leastOrder_gather (hset : ∀ q ∈ set, q < nfa.states.length) {x : Labelled}
    (hx : x ∈ gather nfa set) : LeastOrder nfa set x.2.1 x.1 := by
  have hleast := merged_gather.least x hx
  have hsame : {o | ∃ q ∈ set, ∃ target, (o, x.2.1, target) ∈ (nfa.state q).edges}
      = {o | ∃ target, (o, x.2.1, target) ∈ (nfa.ascending set).flatMap
          fun q => (nfa.state q).edges} := by
    ext o
    constructor
    · rintro ⟨q, hq, target, hin⟩
      exact ⟨target, List.mem_flatMap.mpr ⟨q, (Nfa.mem_ascending hset).mpr hq, hin⟩⟩
    · rintro ⟨target, hin⟩
      obtain ⟨q, hq, hin⟩ := List.mem_flatMap.mp hin
      exact ⟨q, (Nfa.mem_ascending hset).mp hq, target, hin⟩
  unfold LeastOrder
  rw [hsame]
  exact hleast

theorem LeastOrder.exists_mem_gather (hset : ∀ q ∈ set, q < nfa.states.length) {e : Event}
    {order : Nat} (h : LeastOrder nfa set e order) : ∃ x ∈ gather nfa set, x.2.1 = e := by
  obtain ⟨⟨q, hq, target, hin⟩, -⟩ := h
  exact Builder.exists_mem_gather hset (t := target) ⟨q, hq, order, hin⟩

end Gather

/-! ## The events of a state

The entries of a set sorted by those numbers, with the wildcard behind them and the end of the
element behind that. -/

/-- The order of the events that leave a set of states: of two declared events the one whose first
edge was made first, any event before the wildcard, and the end of the element last. -/
inductive Precedes (nfa : Nfa) (set : Finset Nat) : Event → Event → Prop where
  | declared {e e' : Event} {order order' : Nat} (he : e ≠ .wildcard) (he' : e' ≠ .wildcard)
      (hleast : LeastOrder nfa set e order) (hleast' : LeastOrder nfa set e' order')
      (hlt : order < order') : Precedes nfa set e e'
  | wildcard {e : Event} (he : e ≠ .wildcard) (hend : e ≠ .endElement) :
      Precedes nfa set e .wildcard
  | last {e : Event} (he : e ≠ .endElement) : Precedes nfa set e .endElement

/-- What a set of states offers, in this order: the events of its edges, and the end where it
accepts. -/
structure InOrder (nfa : Nfa) (accept : Nat) (set : Finset Nat) (events : List Event) : Prop where
  ordered : events.Pairwise (Precedes nfa set)
  offered : ∀ e, e ≠ .endElement → (e ∈ events ↔ ∃ order, LeastOrder nfa set e order)
  ends : .endElement ∈ events ↔ accept ∈ set

section Events

variable {nfa : Nfa} {set : Finset Nat}

theorem LeastOrder.ne_endElement (hG : nfa.graph.Closed Labels) {e : Event} {order : Nat}
    (h : LeastOrder nfa set e order) : e ≠ .endElement := by
  obtain ⟨⟨q, -, target, hin⟩, -⟩ := h
  exact (hG q (some e) target ⟨order, hin⟩).2 e rfl

/-- No event precedes itself. -/
theorem Precedes.ne {e e' : Event} (h : Precedes nfa set e e') : e ≠ e' := by
  rintro rfl
  cases h with
  | declared _ _ hleast hleast' hlt => exact hlt.ne (hleast.unique hleast')
  | wildcard he _ => exact he rfl
  | last he => exact he rfl

/-- Sorted by whether they are the wildcard, then by their first edges. -/
theorem pairwise_sortEdges (edges : List Labelled) :
    (sortEdges edges).Pairwise fun a b =>
      (a.2.1 ≠ .wildcard ∧ b.2.1 = .wildcard)
        ∨ ((a.2.1 = .wildcard ↔ b.2.1 = .wildcard) ∧ a.1 ≤ b.1) := by
  have : Std.Total fun a b : Labelled =>
      (a.2.1 ≠ .wildcard ∧ b.2.1 = .wildcard)
        ∨ ((a.2.1 = .wildcard ↔ b.2.1 = .wildcard) ∧ a.1 ≤ b.1) := by
    refine ⟨fun a b => ?_⟩
    have hle := Nat.le_total a.1 b.1
    by_cases ha : a.2.1 = .wildcard <;> by_cases hb : b.2.1 = .wildcard <;> simp [ha, hb, hle]
  have : IsTrans Labelled fun a b : Labelled =>
      (a.2.1 ≠ .wildcard ∧ b.2.1 = .wildcard)
        ∨ ((a.2.1 = .wildcard ↔ b.2.1 = .wildcard) ∧ a.1 ≤ b.1) := by
    refine ⟨fun a b c hab hbc => ?_⟩
    have hle : a.1 ≤ b.1 → b.1 ≤ c.1 → a.1 ≤ c.1 := Nat.le_trans
    by_cases ha : a.2.1 = .wildcard <;> by_cases hb : b.2.1 = .wildcard <;>
      by_cases hc : c.2.1 = .wildcard <;> simp_all
  exact List.pairwise_insertionSort _ _

/-- What leaves a set comes in its order. -/
theorem precedes_sortEdges (hmade : nfa.Made) (hset : ∀ q ∈ set, q < nfa.states.length) :
    ((sortEdges (gather nfa set)).map fun x => x.2.1).Pairwise (Precedes nfa set) := by
  have hperm : (sortEdges (gather nfa set)).Perm (gather nfa set) := List.perm_insertionSort _ _
  have hdistinct : (sortEdges (gather nfa set)).Pairwise fun a b => a.2.1 ≠ b.2.1 :=
    List.pairwise_map.mp ((hperm.map _).nodup_iff.mpr tidy_gather.1)
  have hsorted := pairwise_sortEdges (gather nfa set)
  rw [List.pairwise_map]
  refine ((hsorted.and hdistinct).imp_of_mem ?_)
  rintro a b ha hb ⟨hle, hne⟩
  have hleast := leastOrder_gather hset (hperm.mem_iff.mp ha)
  have hleast' := leastOrder_gather hset (hperm.mem_iff.mp hb)
  by_cases hwild : b.2.1 = .wildcard
  · rw [hwild] at hne ⊢
    exact .wildcard hne (hleast.ne_endElement hmade.closed)
  · rcases hle with ⟨-, hb⟩ | ⟨hboth, hle⟩
    · exact absurd hb hwild
    · refine .declared (fun ha => hwild (hboth.mp ha)) hwild hleast hleast' ?_
      refine lt_of_le_of_ne hle fun heq => hne ?_
      -- no two events have edges of the same number
      obtain ⟨⟨q, -, target, hin⟩, -⟩ := hleast
      obtain ⟨⟨q', -, target', hin'⟩, -⟩ := hleast'
      rw [← heq] at hin'
      exact hmade.ordered.unique ⟨q, target, hin⟩ ⟨q', target', hin'⟩

/-- The events of the state that a set of states is given. -/
def listing (nfa : Nfa) (accept : Nat) (set : Finset Nat) : List Event :=
  ((sortEdges (gather nfa set)).map fun x => x.2.1) ++ if accept ∈ set then [.endElement] else []

/-- The listing of a set of states is its events in order, with the end behind them where the set
accepts. -/
theorem inOrder_listing (accept : Nat) (hmade : nfa.Made)
    (hset : ∀ q ∈ set, q < nfa.states.length) :
    InOrder nfa accept set (listing nfa accept set) := by
  have hgathered : ∀ e, (e ∈ (sortEdges (gather nfa set)).map fun x => x.2.1)
      ↔ ∃ order, LeastOrder nfa set e order := by
    intro e
    rw [List.mem_map]
    constructor
    · rintro ⟨x, hx, rfl⟩
      exact ⟨x.1, leastOrder_gather hset ((List.mem_insertionSort _).mp hx)⟩
    · rintro ⟨order, hleast⟩
      obtain ⟨x, hx, he⟩ := hleast.exists_mem_gather hset
      exact ⟨x, (List.mem_insertionSort _).mpr hx, he⟩
  have hlabel : ∀ e, (e ∈ (sortEdges (gather nfa set)).map fun x => x.2.1) → e ≠ .endElement := by
    intro e he
    obtain ⟨order, hleast⟩ := (hgathered e).mp he
    exact hleast.ne_endElement hmade.closed
  have hlast : ∀ e, e ∈ (if accept ∈ set then [Event.endElement] else [])
      ↔ e = .endElement ∧ accept ∈ set := by
    intro e
    split <;> simp [*]
  refine ⟨?_, fun e he => ?_, ?_⟩
  · refine List.pairwise_append.mpr ⟨precedes_sortEdges hmade hset, ?_, ?_⟩
    · split <;> simp
    · intro e he e' he'
      obtain ⟨rfl, -⟩ := (hlast e').mp he'
      exact .last (hlabel e he)
  · rw [listing, List.mem_append, hgathered, hlast]
    exact ⟨fun h => h.resolve_right fun hend => he hend.1, .inl⟩
  · rw [listing, List.mem_append, hlast]
    constructor
    · rintro (h | ⟨-, h⟩)
      · exact absurd rfl (hlabel _ h)
      · exact h
    · exact fun h => .inr ⟨rfl, h⟩

end Events

/-! ## The turns of the loops

The loops of the source as relations, without a bound on their turns: that they end is a
statement of its own. -/

/-- The loop of `Nfa.closure` comes to its end after so many turns. -/
inductive ClosureEnds (nfa : Nfa) : Nat → Finset Nat → List Nat → Finset Nat → Prop where
  | done (out : Finset Nat) : ClosureEnds nfa 0 out [] out
  | turn {turns s : Nat} {stack : List Nat} {out final : Finset Nat}
      (h : ClosureEnds nfa turns (Nfa.reach (nfa.state s).epsilon out stack).1
        (Nfa.reach (nfa.state s).epsilon out stack).2 final) :
      ClosureEnds nfa (turns + 1) out (s :: stack) final

/-- The loop of `Builder.determinise` comes to its end after so many turns: the head has passed
the last set of the queue. -/
inductive SubsetsEnds (nfa : Nfa) (accept : Nat) : Nat → Nat → Found → Found → Prop where
  | done {head : Nat} {found : Found} (h : found.queue.length ≤ head) :
      SubsetsEnds nfa accept 0 head found found
  | turn {turns head : Nat} {found final : Found} {set : Finset Nat}
      (hset : found.queue[head]? = some set)
      (h : SubsetsEnds nfa accept turns (head + 1) (found.turn nfa accept set) final) :
      SubsetsEnds nfa accept (turns + 1) head found final

section Ends

variable {nfa : Nfa} {accept : Nat}

theorem closureLoop_ends {M : εNFA Event Nat} {start : Finset Nat} (hM : M.step = nfa.graph.step)
    (hG : nfa.graph.Closed Labels) {fuel : Nat} {out : Finset Nat} {stack : List Nat}
    (h : Nfa.Closing nfa M start fuel out stack) :
    ∃ turns ≤ fuel, ClosureEnds nfa turns out stack (nfa.closureLoop fuel out stack) := by
  induction fuel generalizing out stack with
  | zero =>
    have hcard := Nfa.card_le_of_bounded h.bounded
    have hturns := h.turns
    obtain rfl : stack = [] := List.eq_nil_of_length_eq_zero (by omega)
    exact ⟨0, le_rfl, .done out⟩
  | succ fuel ih =>
    cases stack with
    | nil => exact ⟨0, Nat.zero_le _, .done out⟩
    | cons s stack =>
      obtain ⟨turns, hturns, hends⟩ := ih (h.step hM hG)
      exact ⟨turns + 1, Nat.succ_le_succ hturns, .turn hends⟩

theorem closure_ends (hG : nfa.graph.Closed Labels) {set : Finset Nat}
    (hset : ∀ q ∈ set, q < nfa.states.length) :
    ∃ turns ≤ nfa.states.length,
      ClosureEnds nfa turns set (nfa.ascending set).reverse (nfa.closure set) :=
  closureLoop_ends (M := nfa.machine 0) rfl hG (Nfa.closing_begin hset)

theorem subsets_ends (hG : nfa.graph.Closed Labels) {fuel head : Nat} {found : Found}
    (h : Progress nfa accept head found) (hfuel : 2 ^ nfa.states.length ≤ fuel + head) :
    ∃ turns ≤ fuel,
      SubsetsEnds nfa accept turns head found (subsets nfa accept false fuel head found) := by
  induction fuel generalizing head found with
  | zero =>
    have hlength := h.sound.length_le
    exact ⟨0, le_rfl, .done (by omega)⟩
  | succ fuel ih =>
    rw [subsets_succ]
    cases hset : found.queue[head]? with
    | none => exact ⟨0, Nat.zero_le _, .done (List.getElem?_eq_none_iff.mp hset)⟩
    | some set =>
      obtain ⟨-, hprogress⟩ := h.turn hG hset
      obtain ⟨turns, hturns, hends⟩ := ih hprogress (by omega)
      exact ⟨turns + 1, Nat.succ_le_succ hturns, .turn hset hends⟩

end Ends

/-! ## What the loop keeps

A set is in the queue because a production of an earlier one leads to it. So there is a path to
every state, and the states before the head offer what their sets do. -/

section Listed

variable {nfa : Nfa} {accept : Nat}

theorem events_follow (edges : List Labelled) (found : Found) :
    (follow nfa edges found).1.map Production.event = edges.map fun x => x.2.1 := by
  induction edges generalizing found with
  | nil => rfl
  | cons x edges ih =>
    obtain ⟨order, event, targets⟩ := x
    have hrest := ih (found.index (nfa.closure targets)).2
    simp only [follow, List.map_cons, hrest]

theorem index_sizes {found : Found} (h : found.states.length = found.queue.length)
    (set : Finset Nat) :
    (found.index set).2.states.length = (found.index set).2.queue.length
      ∧ ((found.index set).2.queue.length = found.queue.length
        ∨ ((found.index set).1 = found.queue.length
          ∧ (found.index set).2.queue.length = found.queue.length + 1)) := by
  unfold Found.index
  cases found.queue.idxOf? set with
  | some i => exact ⟨h, .inl rfl⟩
  | none =>
    refine ⟨?_, .inr ⟨h, List.length_append⟩⟩
    show (found.states ++ [_]).length = (found.queue ++ [set]).length
    rw [List.length_append, List.length_append, h]
    rfl

/-- A set is found by a production that leads to it. -/
theorem follow_linked {edges : List Labelled} {found : Found}
    (h : found.states.length = found.queue.length) {j : Nat} (hj : found.queue.length ≤ j)
    (hlt : j < (follow nfa edges found).2.queue.length) :
    ∃ p ∈ (follow nfa edges found).1, p.target = j := by
  induction edges generalizing found with
  | nil => exact absurd hlt (Nat.not_lt.mpr hj)
  | cons x edges ih =>
    obtain ⟨order, event, targets⟩ := x
    obtain ⟨hsizes, hgrown⟩ := index_sizes h (nfa.closure targets)
    by_cases hlater : (found.index (nfa.closure targets)).2.queue.length ≤ j
    · obtain ⟨p, hp, htarget⟩ := ih hsizes hlater hlt
      exact ⟨p, List.mem_cons_of_mem _ hp, htarget⟩
    · rcases hgrown with hsame | ⟨hnew, hlength⟩
      · omega
      · refine ⟨_, List.mem_cons_self, ?_⟩
        show (found.index (nfa.closure targets)).1 = j
        omega

/-- What the loop keeps: the queue begins with the closure of the entry, the states before `head`
list the events of their sets, and a production before `head` leads to every later set. -/
structure Listed (nfa : Nfa) (entry accept head : Nat) (found : Found) : Prop where
  begun : found.queue[0]? = some (nfa.closure {entry})
  events : ∀ i set, i < head → found.queue[i]? = some set → ∃ s, found.states[i]? = some s
    ∧ s.productions.map Production.event = listing nfa accept set
  linked : ∀ j, 0 < j → j < found.queue.length → ∃ i s p, i < head ∧ i < j
    ∧ found.states[i]? = some s ∧ p ∈ s.productions ∧ p.event ≠ .endElement ∧ p.target = j

/-- One turn of the subset construction lists the subset it takes, and leaves the listed ones alone.
-/
theorem Listed.turn (hG : nfa.graph.Closed Labels) {entry head : Nat} {found : Found}
    {set : Finset Nat} (hprogress : Progress nfa accept head found)
    (hset : found.queue[head]? = some set) (h : Listed nfa entry accept head found) :
    Listed nfa entry accept (head + 1) (found.turn nfa accept set) := by
  obtain ⟨hold, hnew⟩ := turn_states hG hprogress hset
  obtain ⟨hqueue, -⟩ := hprogress.turn hG hset
  obtain ⟨hlt, heq⟩ := List.getElem?_eq_some_iff.mp hset
  have hbounded : ∀ q ∈ set, q < nfa.states.length :=
    hprogress.sound.bounded set (heq ▸ List.getElem_mem hlt)
  refine ⟨prefix_getElem? hqueue h.begun, fun i other hi hother => ?_, fun j hpos hj => ?_⟩
  · rcases Nat.lt_or_ge i head with hbefore | hnow
    · have hq : found.queue[i]? = some found.queue[i] := List.getElem?_eq_getElem (by omega)
      have hsame := Option.some.inj (hother.symm.trans (prefix_getElem? hqueue hq))
      obtain ⟨s, hs, hevents⟩ := h.events i _ hbefore hq
      exact ⟨s, hold i s hbefore hs, hsame ▸ hevents⟩
    · obtain rfl : i = head := by omega
      have hsame := Option.some.inj (hother.symm.trans (prefix_getElem? hqueue hset))
      refine ⟨_, hnew, ?_⟩
      rw [List.map_append, events_follow, hsame, listing, closing, Bool.false_and,
        if_neg Bool.false_ne_true, List.append_nil]
      split <;> rfl
  · rcases Nat.lt_or_ge j found.queue.length with hbefore | hnow
    · obtain ⟨i, s, p, hi, hij, hs, hp, he, htarget⟩ := h.linked j hpos hbefore
      exact ⟨i, s, p, by omega, hij, hold i s hi hs, hp, he, htarget⟩
    · -- found in this turn
      obtain ⟨p, hp, htarget⟩ := follow_linked hprogress.sound.sizes hnow hj
      refine ⟨head, _, p, Nat.lt_succ_self _, by omega, hnew, List.mem_append_left _ hp, ?_,
        htarget⟩
      have hin : p.event ∈ (sortEdges (gather nfa set)).map fun x => x.2.1 := by
        rw [← events_follow _ found]
        exact List.mem_map_of_mem hp
      obtain ⟨x, hx, hevent⟩ := List.mem_map.mp hin
      rw [← hevent]
      exact (leastOrder_gather hbounded ((List.mem_insertionSort _).mp hx)).ne_endElement hG

end Listed

end Builder

/-! ## The states of the grammar

Read off the invariant when the queue is used up, with a word for each state by induction on its
position in the queue. -/

/-- The words along the paths from the start to a state. -/
inductive Grammar.Arrives (g : Grammar) : List Event → Nat → Prop where
  | start : Arrives g [] 0
  | step {w : List Event} {i : Nat} {s : State} {p : Production} (h : Arrives g w i)
      (hs : g.states[i]? = some s) (hp : p ∈ s.productions) (he : p.event ≠ .endElement) :
      Arrives g (w ++ [p.event]) p.target

namespace Builder

section Arrives

variable {nfa : Nfa} {entry accept : Nat} {found : Found}

/-- A word leads the grammar to the state of the set it leads the automaton to. -/
theorem arrives_set (hG : nfa.graph.Closed Labels) (hentry : entry < nfa.states.length)
    (hend : Progress nfa accept found.queue.length found)
    (hlisted : Listed nfa entry accept found.queue.length found) {w : List Event} {i : Nat}
    (h : (Grammar.mk found.states).Arrives w i) :
    ∃ set : Finset Nat, found.queue[i]? = some set
      ∧ ∀ q, q ∈ set ↔ Spells (nfa.machine accept) entry w q := by
  have hfold : ∃ set : Finset Nat, found.queue[i]? = some set
      ∧ (set : Set Nat) = (nfa.machine accept).evalFrom {entry} w := by
    induction h with
    | start => exact ⟨_, hlisted.begun, coe_closure_singleton hG hentry⟩
    | @step w i s p h hs hp he ih =>
      obtain ⟨set, hset, heval⟩ := ih
      obtain ⟨hlt, -⟩ := List.getElem?_eq_some_iff.mp hset
      obtain ⟨s', hs', hdesc⟩ := hend.described i set hlt hset
      obtain rfl := Option.some.inj (hs'.symm.trans hs)
      obtain ⟨target, htarget, hclosure⟩ := hdesc.leads p hp he
      refine ⟨target, htarget, ?_⟩
      rw [εNFA.evalFrom_append_singleton, ← heval]
      ext t
      rw [mem_stepSet_iff_after rfl]
      exact hclosure t
  obtain ⟨set, hset, heval⟩ := hfold
  refine ⟨set, hset, fun q => ?_⟩
  rw [← Finset.mem_coe, heval]
  exact (nfa.machine accept).mem_evalFrom_iff_exists_path

/-- Some word leads to every state. -/
theorem exists_arrives (hlisted : Listed nfa entry accept found.queue.length found) (j : Nat)
    (hj : j < found.queue.length) : ∃ w, (Grammar.mk found.states).Arrives w j := by
  induction j using Nat.strong_induction_on with
  | h j ih =>
    rcases Nat.eq_zero_or_pos j with rfl | hpos
    · exact ⟨[], .start⟩
    · obtain ⟨i, s, p, hi, hij, hs, hp, he, rfl⟩ := hlisted.linked j hpos hj
      obtain ⟨w, hw⟩ := ih i hij hi
      exact ⟨w ++ [p.event], hw.step hs hp he⟩

end Arrives

/-- Both loops of the subset construction end. The grammar spells what the automaton does from the
entry to the accepting state. Each of its states stands for the states that the same words lead to,
and has a production for each event of their edges, in order, with no event twice. -/
theorem determinise_exact {nfa : Nfa} (hmade : nfa.Made) {entry : Nat}
    (hentry : entry < nfa.states.length) (accept : Nat) :
    (∀ set : Finset Nat, (∀ q ∈ set, q < nfa.states.length) → ∃ turns ≤ nfa.states.length,
        ClosureEnds nfa turns set (nfa.ascending set).reverse (nfa.closure set))
      ∧ (∃ turns ≤ 2 ^ nfa.states.length, ∃ final,
        SubsetsEnds nfa accept turns 0 ⟨[nfa.closure {entry}], [{}]⟩ final
          ∧ determinise nfa entry accept false = ⟨final.states⟩)
      ∧ (∀ w, (determinise nfa entry accept false).Spells 0 w
        ↔ Spells (nfa.machine accept) entry w accept)
      ∧ ∀ i s, (determinise nfa entry accept false).states[i]? = some s →
        ∃ set : Finset Nat,
          (∃ w, (determinise nfa entry accept false).Arrives w i)
            ∧ (∀ w, (determinise nfa entry accept false).Arrives w i →
              ∀ q, q ∈ set ↔ Spells (nfa.machine accept) entry w q)
            ∧ (s.productions.map Production.event).Nodup
            ∧ InOrder nfa accept set (s.productions.map Production.event) := by
  have hG := hmade.closed
  have hbegin : Progress nfa accept 0 ⟨[nfa.closure {entry}], [{}]⟩ := progress_begin hG hentry
  -- at the start no subset is listed yet
  have hlisted : Listed nfa entry accept 0 ⟨[nfa.closure {entry}], [{}]⟩ := by
    refine ⟨rfl, fun i set hi => absurd hi (Nat.not_lt_zero i), fun j hpos hj => ?_⟩
    have hone : j < 1 := hj
    omega
  obtain ⟨final, hfinal, hend, hkept⟩ :=
    subsets_run hG (fun hprogress hset h => Listed.turn hG hprogress hset h) hbegin
      (le_refl (2 ^ nfa.states.length)) hlisted
  have hsame : determinise nfa entry accept false = ⟨final.states⟩ :=
    congrArg (fun found => Grammar.mk found.states) (hfinal 0)
  -- the closures end, the subsets end, and the words are the same
  refine ⟨fun set hset => closure_ends hG hset, ?_, spells_determinise_iff hG hentry, ?_⟩
  · obtain ⟨turns, hturns, hends⟩ := subsets_ends hG hbegin (le_refl (2 ^ nfa.states.length))
    exact ⟨turns, hturns, _, hends, rfl⟩
  -- the events of a state are those of the subset it stands for
  · rw [hsame]
    intro i s hs
    obtain ⟨hlt, -⟩ := List.getElem?_eq_some_iff.mp hs
    have hi : i < final.queue.length := hend.sound.sizes ▸ hlt
    have hset : final.queue[i]? = some final.queue[i] := List.getElem?_eq_getElem hi
    have hbounded : ∀ q ∈ final.queue[i], q < nfa.states.length :=
      hend.sound.bounded _ (List.getElem_mem hi)
    obtain ⟨s', hs', hevents⟩ := hkept.events i _ hi hset
    obtain rfl := Option.some.inj (hs'.symm.trans hs)
    have hinOrder := inOrder_listing accept hmade hbounded
    rw [← hevents] at hinOrder
    refine ⟨final.queue[i], exists_arrives hkept i hi, fun w hw => ?_,
      hinOrder.ordered.imp fun hp => hp.ne, hinOrder⟩
    obtain ⟨set, hset', hmem⟩ := arrives_set hG hentry hend hkept hw
    rw [Option.some.inj (hset.symm.trans hset')]
    exact hmem

/-- Two states that lead to one another without a word, and two edges. -/
def ring : Nfa :=
  (((Nfa.new.addState.2.edge 0 .wildcard 1).edge 1 .charactersGeneric 0).epsilon 0 1).epsilon 1 0

theorem ring_made : ring.Made :=
  .epsilon (.epsilon (.edge (.edge (.addState .new) (by decide) (by decide) (by decide))
    (by decide) (by decide) (by decide)) (by decide) (by decide)) (by decide) (by decide)

/-- The wildcard was made first and comes second. -/
example : (determinise ring 0 1 false).states
    = [⟨[⟨.charactersGeneric, 0⟩, ⟨.wildcard, 0⟩, ⟨.endElement, noTarget⟩]⟩] := by decide

theorem determinise_ring :
    (∃ turns ≤ 2 ^ ring.states.length, ∃ final,
        SubsetsEnds ring 1 turns 0 ⟨[ring.closure {0}], [{}]⟩ final
          ∧ determinise ring 0 1 false = ⟨final.states⟩)
      ∧ ((determinise ring 0 1 false).Spells 0 [.wildcard]
        ↔ Spells (ring.machine 1) 0 [.wildcard] 1) := by
  obtain ⟨-, hends, hspells, -⟩ :=
    determinise_exact ring_made (show 0 < ring.states.length by decide) 1
  exact ⟨hends, hspells [.wildcard]⟩

end Builder

end Iso15118.Codegen
