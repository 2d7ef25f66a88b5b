import Mathlib.Data.Finset.Powerset
import Iso15118.Codegen.Construction

/-!
# From automata to grammars

The subset construction keeps what an automaton spells. There are two loops to see through: the
worklist of `Nfa.closure`, which finds the states reached without a word, and the queue of
`Builder.subsets`, whose sets become the states of the grammar.

* **`mem_closure_iff`** — the closure is the one of the automaton, and the loop has turns enough;
* **`described_subsets`** — in the end every set of the queue has a state that says what the set
  does, and again there are turns enough;
* **`spells_determinise_iff`** — so the grammar spells what the automaton does.
-/

namespace Iso15118.Codegen

open Lib

/-- The automaton as such. -/
def Nfa.machine (nfa : Nfa) (accept : Nat) : εNFA Event Nat where
  step := nfa.graph.step
  start := {0}
  accept := {accept}

/-! ## Closure

The worklist is followed with the invariant that everything found is reached, and that what it
leads to is found or still on the stack. A state is pushed when it is found, so the stack is
empty after as many turns as there are states. -/

namespace Nfa

/-- What one state adds to the states found and to the stack. -/
theorem reach_spec (targets : List Nat) (out : Finset Nat) (stack : List Nat) :
    (∀ q, q ∈ (reach targets out stack).1 ↔ q ∈ out ∨ q ∈ targets) ∧
      (∀ q, q ∈ (reach targets out stack).2 ↔ q ∈ stack ∨ (q ∈ targets ∧ q ∉ out)) ∧
      (reach targets out stack).2.length + out.card
        = stack.length + (reach targets out stack).1.card := by
  -- what is found for the first time goes out and onto the stack, one for one
  induction targets generalizing out stack with
  | nil => simp [reach]
  | cons next rest ih =>
      by_cases hnext : next ∈ out
      -- seen before: neither grows
      · have hreach : reach (next :: rest) out stack = reach rest out stack := by
          rw [reach, if_pos hnext]
        obtain ⟨hout, hstack, hlen⟩ := ih out stack
        rw [hreach]
        refine ⟨fun q => ?_, fun q => ?_, hlen⟩
        · rw [hout, List.mem_cons]
          constructor
          · exact fun h => h.imp id Or.inr
          · rintro (h | rfl | h)
            · exact Or.inl h
            · exact Or.inl hnext
            · exact Or.inr h
        · rw [hstack, List.mem_cons]
          constructor
          · exact fun h => h.imp id fun h => ⟨Or.inr h.1, h.2⟩
          · rintro (h | ⟨rfl | h, hq⟩)
            · exact Or.inl h
            · exact absurd hnext hq
            · exact Or.inr ⟨h, hq⟩
      -- new: both grow by one
      · have hreach : reach (next :: rest) out stack
            = reach rest (insert next out) (next :: stack) := by
          rw [reach, if_neg hnext]
        obtain ⟨hout, hstack, hlen⟩ := ih (insert next out) (next :: stack)
        rw [hreach]
        refine ⟨fun q => ?_, fun q => ?_, ?_⟩
        · rw [hout, Finset.mem_insert, List.mem_cons, or_assoc, or_left_comm]
        · rw [hstack, Finset.mem_insert, List.mem_cons, List.mem_cons]
          by_cases hq : q = next
          · simp [hq, hnext]
          · simp [hq]
        · rw [Finset.card_insert_of_notMem hnext, List.length_cons] at hlen
          omega

/-- Where the worklist stands: everything found is reached, and what is reached from it at once is
found unless it is still on the stack. There are turns left for the stack and for the states not
found yet. -/
structure Closing (nfa : Nfa) (M : εNFA Event Nat) (start : Finset Nat) (fuel : Nat)
    (out : Finset Nat) (stack : List Nat) : Prop where
  begun : start ⊆ out
  reached : ∀ q ∈ out, q ∈ M.εClosure start
  bounded : ∀ q ∈ out, q < nfa.states.length
  stacked : ∀ q ∈ stack, q ∈ out
  pending : ∀ q ∈ out, q ∉ stack → ∀ t ∈ (nfa.state q).epsilon, t ∈ out
  turns : stack.length + nfa.states.length ≤ fuel + out.card

section Loop

variable {nfa : Nfa} {M : εNFA Event Nat} {start : Finset Nat}

theorem card_le_of_bounded {n : Nat} {out : Finset Nat} (h : ∀ q ∈ out, q < n) : out.card ≤ n := by
  have hsub : out ⊆ Finset.range n := fun q hq => Finset.mem_range.mpr (h q hq)
  have hcard := Finset.card_le_card hsub
  rwa [Finset.card_range] at hcard

/-- One turn of the loop keeps the set inside the closure, and brings it one state nearer. -/
theorem Closing.step (hM : M.step = nfa.graph.step) (hG : nfa.graph.Closed Builder.Labels)
    {fuel : Nat} {out : Finset Nat} {s : Nat} {stack : List Nat}
    (h : Closing nfa M start (fuel + 1) out (s :: stack)) :
    Closing nfa M start fuel (reach (nfa.state s).epsilon out stack).1
      (reach (nfa.state s).epsilon out stack).2 := by
  obtain ⟨hout, hstack, hlen⟩ :=
    reach_spec (nfa.state s).epsilon out stack
  have hs : s ∈ out := h.stacked s List.mem_cons_self
  -- the state taken from the stack passes its edges on
  have hedge : ∀ t ∈ (nfa.state s).epsilon, t ∈ nfa.graph.step s none := fun t ht => ht
  refine ⟨fun q hq => (hout q).mpr (Or.inl (h.begun hq)), ?_, ?_, ?_, ?_, ?_⟩
  · intro q hq
    rcases (hout q).mp hq with hq | hq
    · exact h.reached q hq
    · refine εNFA.εClosure.step s q ?_ (h.reached s hs)
      rw [hM]
      exact hedge q hq
  · intro q hq
    rcases (hout q).mp hq with hq | hq
    · exact h.bounded q hq
    · exact (hG s none q (hedge q hq)).1
  · intro q hq
    rcases (hstack q).mp hq with hq | ⟨hq, _⟩
    · exact (hout q).mpr (Or.inl (h.stacked q (List.mem_cons_of_mem _ hq)))
    · exact (hout q).mpr (Or.inr hq)
  · intro q hq hnot t ht
    by_cases hqs : q = s
    · exact (hout t).mpr (Or.inr (hqs ▸ ht))
    · -- a state found in this turn would be on the stack
      have hold : q ∈ out := by
        by_contra hnew
        have hin := ((hout q).mp hq).resolve_left hnew
        exact hnot ((hstack q).mpr (Or.inr ⟨hin, hnew⟩))
      have hpopped : q ∉ s :: stack := by
        rw [List.mem_cons, not_or]
        exact ⟨hqs, fun hin => hnot ((hstack q).mpr (Or.inl hin))⟩
      exact (hout t).mpr (Or.inl (h.pending q hold hpopped t ht))
  · have hturns := h.turns
    rw [List.length_cons] at hturns
    omega

theorem Closing.closure_eq (hM : M.step = nfa.graph.step) {fuel : Nat} {out : Finset Nat}
    (h : Closing nfa M start fuel out []) (q : Nat) :
    q ∈ out ↔ q ∈ M.εClosure start := by
  refine ⟨h.reached q, fun hq => ?_⟩
  induction hq with
  | base q hq => exact h.begun hq
  | step q t ht _ ih =>
      rw [hM] at ht
      exact h.pending q ih (List.not_mem_nil) t ht

theorem closureLoop_spec (hM : M.step = nfa.graph.step) (hG : nfa.graph.Closed Builder.Labels)
    {fuel : Nat} {out : Finset Nat} {stack : List Nat}
    (h : Closing nfa M start fuel out stack) :
    ∃ fuel', Closing nfa M start fuel' (nfa.closureLoop fuel out stack) [] := by
  induction fuel generalizing out stack with
  | zero =>
      have hcard := card_le_of_bounded h.bounded
      have hturns := h.turns
      have hstack : stack = [] := List.eq_nil_of_length_eq_zero (by omega)
      subst hstack
      exact ⟨0, h⟩
  | succ fuel ih =>
      cases stack with
      | nil => exact ⟨fuel + 1, h⟩
      | cons s stack => exact ih (h.step hM hG)

theorem mem_ascending {set : Finset Nat} {q : Nat} (h : ∀ q ∈ set, q < nfa.states.length) :
    q ∈ nfa.ascending set ↔ q ∈ set := by
  rw [ascending, List.mem_filter, List.mem_range, decide_eq_true_eq]
  exact ⟨fun hq => hq.2, fun hq => ⟨h q hq, hq⟩⟩

theorem length_ascending {set : Finset Nat} (h : ∀ q ∈ set, q < nfa.states.length) :
    (nfa.ascending set).length = set.card := by
  have hnodup : (nfa.ascending set).Nodup := List.nodup_range.filter _
  have heq : (nfa.ascending set).toFinset = set := by
    ext q
    rw [List.mem_toFinset, mem_ascending h]
  rw [← List.toFinset_card_of_nodup hnodup, heq]

/-- Where the worklist begins: with all it is given. -/
theorem closing_begin (hstart : ∀ q ∈ start, q < nfa.states.length) :
    Closing nfa M start nfa.states.length start (nfa.ascending start).reverse := by
  have hmem : ∀ q, q ∈ (nfa.ascending start).reverse ↔ q ∈ start := by
    intro q
    rw [List.mem_reverse, mem_ascending hstart]
  refine ⟨Finset.Subset.refl _, fun q hq => εNFA.εClosure.base q hq, hstart,
    fun q hq => (hmem q).mp hq, fun q hq hnot => absurd ((hmem q).mpr hq) hnot, ?_⟩
  rw [List.length_reverse, length_ascending hstart]
  exact (Nat.add_comm _ _).le

/-- The worklist finds the states that are reached without a word, and only those. -/
theorem closing_closure (hM : M.step = nfa.graph.step) (hG : nfa.graph.Closed Builder.Labels)
    (hstart : ∀ q ∈ start, q < nfa.states.length) :
    ∃ fuel, Closing nfa M start fuel (nfa.closure start) [] :=
  closureLoop_spec hM hG (closing_begin hstart)

theorem mem_closure_iff (hM : M.step = nfa.graph.step) (hG : nfa.graph.Closed Builder.Labels)
    (hstart : ∀ q ∈ start, q < nfa.states.length) (q : Nat) :
    q ∈ nfa.closure start ↔ q ∈ M.εClosure start := by
  obtain ⟨fuel, h⟩ := closing_closure hM hG hstart
  exact h.closure_eq hM q

theorem closure_bounded (hG : nfa.graph.Closed Builder.Labels)
    (hstart : ∀ q ∈ start, q < nfa.states.length) : ∀ q ∈ nfa.closure start,
      q < nfa.states.length := by
  obtain ⟨fuel, h⟩ := closing_closure (M := nfa.machine 0) rfl hG hstart
  exact h.bounded

end Loop

end Nfa

/-! ## The productions of a set

The edges of all states of a set, sorted into one entry for each event. By induction on the
edges: an entry has the targets of those looked at so far. -/

namespace Builder

/-- Where the entries gathered so far lead with an event. -/
def Leads (edges : List Labelled) (e : Event) (t : Nat) : Prop :=
  ∃ x ∈ edges, x.2.1 = e ∧ t ∈ x.2.2

/-- An edge that is added leads where it says, and every other one where it did. -/
theorem leads_addEdge (edges : List Labelled) (order : Nat) (event : Event) (target : Nat)
    (e : Event) (t : Nat) :
    Leads (addEdge edges (order, event, target)) e t
      ↔ Leads edges e t ∨ (e = event ∧ t = target) := by
  induction edges with
  | nil => simp [Leads, addEdge, eq_comm]
  | cons x rest ih =>
      obtain ⟨order', event', targets⟩ := x
      have hcons : ∀ (y : Labelled) (l : List Labelled),
          Leads (y :: l) e t ↔ (y.2.1 = e ∧ t ∈ y.2.2) ∨ Leads l e t := by
        intro y l
        simp [Leads]
      -- the edge joins the entry of its event
      by_cases hsame : event' = event
      · have hadd : addEdge ((order', event', targets) :: rest) (order, event, target)
            = (Nat.min order' order, event', insert target targets) :: rest := by
          rw [addEdge, if_pos hsame]
        rw [hadd, hcons, hcons, Finset.mem_insert]
        subst hsame
        constructor
        · rintro (⟨rfl, rfl | h⟩ | h)
          · exact Or.inr ⟨rfl, rfl⟩
          · exact Or.inl (Or.inl ⟨rfl, h⟩)
          · exact Or.inl (Or.inr h)
        · rintro ((⟨rfl, h⟩ | h) | ⟨rfl, rfl⟩)
          · exact Or.inl ⟨rfl, Or.inr h⟩
          · exact Or.inr h
          · exact Or.inl ⟨rfl, Or.inl rfl⟩
      -- or goes on to the entries behind
      · have hadd : addEdge ((order', event', targets) :: rest) (order, event, target)
            = (order', event', targets) :: addEdge rest (order, event, target) := by
          rw [addEdge, if_neg hsame]
        rw [hadd, hcons, hcons, ih, or_assoc]

theorem mem_events_addEdge {edges : List Labelled} {order target : Nat} {event e : Event}
    (h : e ∈ (addEdge edges (order, event, target)).map fun x => x.2.1) :
    e ∈ (edges.map fun x => x.2.1) ∨ e = event := by
  induction edges with
  | nil => exact Or.inr (by simpa [addEdge] using h)
  | cons x rest ih =>
      obtain ⟨order', event', targets⟩ := x
      by_cases hsame : event' = event
      · rw [addEdge, if_pos hsame] at h
        exact Or.inl h
      · rw [addEdge, if_neg hsame, List.map_cons, List.mem_cons] at h
        rcases h with rfl | h
        · exact Or.inl List.mem_cons_self
        · exact (ih h).imp (List.mem_cons_of_mem _) id

/-- An event has one entry, and an entry leads somewhere. -/
def Tidy (edges : List Labelled) : Prop :=
  (edges.map fun x => x.2.1).Nodup ∧ ∀ x ∈ edges, x.2.2.Nonempty

/-- An edge that is added joins the entry of its event, or gets one of its own. -/
theorem tidy_addEdge {edges : List Labelled} (h : Tidy edges) (edge : Nat × Event × Nat) :
    Tidy (addEdge edges edge) := by
  obtain ⟨order, event, target⟩ := edge
  induction edges with
  | nil => exact ⟨by simp [addEdge], by simp [addEdge]⟩
  | cons x rest ih =>
      obtain ⟨order', event', targets⟩ := x
      obtain ⟨hnodup, hsome⟩ := h
      rw [List.map_cons, List.nodup_cons] at hnodup
      by_cases hsame : event' = event
      · rw [addEdge, if_pos hsame]
        refine ⟨?_, fun x hx => ?_⟩
        · rw [List.map_cons, List.nodup_cons]
          exact hnodup
        · rcases List.mem_cons.mp hx with rfl | hx
          · exact Finset.insert_nonempty _ _
          · exact hsome x (List.mem_cons_of_mem _ hx)
      · have hrest : Tidy (addEdge rest (order, event, target)) :=
          ih ⟨hnodup.2, fun x hx => hsome x (List.mem_cons_of_mem _ hx)⟩
        rw [addEdge, if_neg hsame]
        refine ⟨?_, fun x hx => ?_⟩
        · rw [List.map_cons, List.nodup_cons]
          refine ⟨fun hin => ?_, hrest.1⟩
          rcases mem_events_addEdge hin with hin | heq
          · exact hnodup.1 hin
          · exact hsame heq
        · rcases List.mem_cons.mp hx with rfl | hx
          · exact hsome _ List.mem_cons_self
          · exact hrest.2 x hx

/-- Where a set of states leads with an event. -/
def after (nfa : Nfa) (set : Finset Nat) (e : Event) : Set Nat :=
  {t | ∃ q ∈ set, t ∈ nfa.graph.step q (some e)}

theorem leads_foldl_addEdge (new : List (Nat × Event × Nat)) (edges : List Labelled) (e : Event)
    (t : Nat) :
    Leads (new.foldl addEdge edges) e t ↔ Leads edges e t ∨ ∃ order, (order, e, t) ∈ new := by
  induction new generalizing edges with
  | nil => simp
  | cons x rest ih =>
      obtain ⟨order, event, target⟩ := x
      rw [List.foldl_cons, ih, leads_addEdge, or_assoc]
      refine or_congr Iff.rfl ?_
      constructor
      · rintro (⟨rfl, rfl⟩ | ⟨o, ho⟩)
        · exact ⟨order, List.mem_cons_self⟩
        · exact ⟨o, List.mem_cons_of_mem _ ho⟩
      · rintro ⟨o, ho⟩
        rcases List.mem_cons.mp ho with heq | ho
        · cases heq
          exact Or.inl ⟨rfl, rfl⟩
        · exact Or.inr ⟨o, ho⟩

section Gather

variable {nfa : Nfa} {set : Finset Nat}

/-- The edges of a set lead, under an event, to where the event leads from some state of it. -/
theorem leads_gather (hset : ∀ q ∈ set, q < nfa.states.length) (e : Event) (t : Nat) :
    Leads (gather nfa set) e t ↔ t ∈ after nfa set e := by
  have hall : ∀ (l : List Nat) (edges : List Labelled),
      Leads (l.foldl (fun edges q => (nfa.state q).edges.foldl addEdge edges) edges) e t
        ↔ Leads edges e t ∨ ∃ q ∈ l, t ∈ nfa.graph.step q (some e) := by
    intro l
    induction l with
    | nil => simp
    | cons q l ih =>
        intro edges
        rw [List.foldl_cons, ih, leads_foldl_addEdge, or_assoc]
        refine or_congr Iff.rfl ?_
        simp only [List.mem_cons, exists_eq_or_imp]
        rfl
  rw [gather, hall]
  constructor
  · rintro (⟨x, hx, _⟩ | ⟨q, hq, ht⟩)
    · exact absurd hx List.not_mem_nil
    · exact ⟨q, (Nfa.mem_ascending hset).mp hq, ht⟩
  · rintro ⟨q, hq, ht⟩
    exact Or.inr ⟨q, (Nfa.mem_ascending hset).mpr hq, ht⟩

theorem tidy_gather : Tidy (gather nfa set) := by
  refine List.foldlRecOn (motive := Tidy) _ _ ⟨List.nodup_nil, by simp⟩ fun edges h q _ => ?_
  exact List.foldlRecOn (motive := Tidy) _ _ h fun edges h x _ => tidy_addEdge h x

/-- An entry has all the states its event leads to. -/
theorem targets_gather (hset : ∀ q ∈ set, q < nfa.states.length) {x : Labelled}
    (hx : x ∈ gather nfa set) (t : Nat) : t ∈ x.2.2 ↔ t ∈ after nfa set x.2.1 := by
  rw [← leads_gather hset]
  constructor
  · exact fun ht => ⟨x, hx, rfl, ht⟩
  · rintro ⟨y, hy, hevent, ht⟩
    have hsame : y = x := List.inj_on_of_nodup_map tidy_gather.1 hy hx hevent
    rwa [← hsame]

theorem exists_mem_gather (hset : ∀ q ∈ set, q < nfa.states.length) {e : Event} {t : Nat}
    (ht : t ∈ after nfa set e) : ∃ x ∈ gather nfa set, x.2.1 = e := by
  obtain ⟨x, hx, he, _⟩ := (leads_gather hset e t).mpr ht
  exact ⟨x, hx, he⟩

end Gather

/-! ## The queue

A set that is not known is put at the end of the queue and given the next state. `Progress` says
where the loop stands, and a turn moves it on by one; there are only so many sets of states, so
the head catches up with the end. -/

/-- A state for each set found, and no set twice. -/
structure Found.Sound (nfa : Nfa) (found : Found) : Prop where
  sizes : found.states.length = found.queue.length
  distinct : found.queue.Nodup
  bounded : ∀ set ∈ found.queue, ∀ q ∈ set, q < nfa.states.length

/-- What has been found later: more sets, and states for them. -/
structure Found.Grown (found found' : Found) : Prop where
  queue : found.queue <+: found'.queue
  states : found.states <+: found'.states

theorem Found.Grown.trans {a b c : Found} (h : a.Grown b) (h' : b.Grown c) : a.Grown c :=
  ⟨h.queue.trans h'.queue, h.states.trans h'.states⟩

theorem prefix_getElem? {α : Type} {l l' : List α} (h : l <+: l') {i : Nat} {a : α}
    (hi : l[i]? = some a) : l'[i]? = some a := by
  obtain ⟨hlt, rfl⟩ := List.getElem?_eq_some_iff.mp hi
  exact List.prefix_iff_getElem?.mp h i hlt

/-- A subset is found in the queue, or put at its end. -/
theorem index_spec {nfa : Nfa} {found : Found} (h : found.Sound nfa) {set : Finset Nat}
    (hset : ∀ q ∈ set, q < nfa.states.length) :
    (found.index set).2.Sound nfa ∧ found.Grown (found.index set).2 ∧
      (found.index set).2.queue[(found.index set).1]? = some set := by
  unfold Found.index
  cases hidx : found.queue.idxOf? set with
  | some i =>
      obtain ⟨hi, heq, _⟩ := List.idxOf?_eq_some_iff.mp hidx
      exact ⟨h, ⟨List.prefix_refl _, List.prefix_refl _⟩, List.getElem?_eq_some_iff.mpr ⟨hi, heq⟩⟩
  | none =>
      have hnew : set ∉ found.queue := List.idxOf?_eq_none_iff.mp hidx
      refine ⟨⟨?_, ?_, ?_⟩, ⟨List.prefix_append _ _, List.prefix_append _ _⟩, ?_⟩
      · show (found.states ++ [_]).length = (found.queue ++ [set]).length
        rw [List.length_append, List.length_append, h.sizes]
        rfl
      · exact List.nodup_append.mpr ⟨h.distinct, List.nodup_singleton _, by
          intro a ha b hb hab
          obtain rfl : b = set := List.mem_singleton.mp hb
          exact hnew (hab ▸ ha)⟩
      · intro other hother
        rcases List.mem_append.mp hother with hother | hother
        · exact h.bounded other hother
        · obtain rfl : other = set := List.mem_singleton.mp hother
          exact hset
      · show (found.queue ++ [set])[found.states.length]? = some set
        rw [h.sizes, List.getElem?_append_right le_rfl, Nat.sub_self]
        rfl

/-- Following the edges of a subset gives one production for each event, to the closure of its
targets. -/
theorem follow_spec {nfa : Nfa} (hG : nfa.graph.Closed Labels) {edges : List Labelled}
    (hedges : ∀ x ∈ edges, ∀ q ∈ x.2.2, q < nfa.states.length) {found : Found}
    (h : found.Sound nfa) :
    (follow nfa edges found).2.Sound nfa ∧ found.Grown (follow nfa edges found).2 ∧
      (∀ x ∈ edges, ∃ p ∈ (follow nfa edges found).1, p.event = x.2.1) ∧
      ∀ p ∈ (follow nfa edges found).1, ∃ x ∈ edges, p.event = x.2.1 ∧
        (follow nfa edges found).2.queue[p.target]? = some (nfa.closure x.2.2) := by
  induction edges generalizing found with
  | nil =>
      refine ⟨h, ⟨List.prefix_refl _, List.prefix_refl _⟩, ?_, ?_⟩
      · exact fun x hx => absurd hx List.not_mem_nil
      · exact fun p hp => absurd hp List.not_mem_nil
  | cons x edges ih =>
      obtain ⟨order, event, targets⟩ := x
      have htargets : ∀ q ∈ targets, q < nfa.states.length := hedges _ List.mem_cons_self
      obtain ⟨hsound, hgrown, hindex⟩ := index_spec h (Nfa.closure_bounded hG htargets)
      obtain ⟨hsound', hgrown', hall, heach⟩ :=
        ih (fun x hx => hedges x (List.mem_cons_of_mem _ hx)) hsound
      refine ⟨hsound', hgrown.trans hgrown', ?_, ?_⟩
      · intro x hx
        rcases List.mem_cons.mp hx with rfl | hx
        · exact ⟨_, List.mem_cons_self, rfl⟩
        · obtain ⟨p, hp, hevent⟩ := hall x hx
          exact ⟨p, List.mem_cons_of_mem _ hp, hevent⟩
      · intro p hp
        rcases List.mem_cons.mp hp with rfl | hp
        · exact ⟨_, List.mem_cons_self, rfl, prefix_getElem? hgrown'.queue hindex⟩
        · obtain ⟨x, hx, hevent, htarget⟩ := heach p hp
          exact ⟨x, List.mem_cons_of_mem _ hx, hevent, htarget⟩

/-- The productions say what the set does: where it leads with each event, and whether the element
may end. -/
structure Describes (nfa : Nfa) (accept : Nat) (queue : List (Finset Nat)) (set : Finset Nat)
    (productions : List Production) : Prop where
  ends : (∃ p ∈ productions, p.event = .endElement) ↔ accept ∈ set
  leads : ∀ p ∈ productions, p.event ≠ .endElement → ∃ target,
    queue[p.target]? = some target ∧
      ∀ t, t ∈ target ↔ t ∈ (nfa.machine accept).εClosure (after nfa set p.event)
  offers : ∀ e t, t ∈ after nfa set e → ∃ p ∈ productions, p.event = e

theorem Describes.mono {nfa : Nfa} {accept : Nat} {queue queue' : List (Finset Nat)}
    {set : Finset Nat} {productions : List Production} (h : queue <+: queue')
    (hd : Describes nfa accept queue set productions) :
    Describes nfa accept queue' set productions := by
  refine ⟨hd.ends, fun p hp he => ?_, hd.offers⟩
  obtain ⟨target, htarget, hclosure⟩ := hd.leads p hp he
  exact ⟨target, prefix_getElem? h htarget, hclosure⟩

section Queue

variable {nfa : Nfa} {accept : Nat}

/-- What one turn of the loop makes of a set. -/
theorem describes_turn (accept : Nat) (hG : nfa.graph.Closed Labels) {found : Found}
    (h : found.Sound nfa)
    {set : Finset Nat} (hset : ∀ q ∈ set, q < nfa.states.length) (id : Nat) :
    (follow nfa (sortEdges (gather nfa set)) found).2.Sound nfa ∧
      found.Grown (follow nfa (sortEdges (gather nfa set)) found).2 ∧
      Describes nfa accept (follow nfa (sortEdges (gather nfa set)) found).2.queue set
        ((follow nfa (sortEdges (gather nfa set)) found).1 ++ closing nfa accept false set id) := by
  have hmem : ∀ x, x ∈ sortEdges (gather nfa set) ↔ x ∈ gather nfa set :=
    fun x => List.mem_insertionSort _
  have hafter : ∀ x ∈ sortEdges (gather nfa set), ∀ t, t ∈ x.2.2 ↔ t ∈ after nfa set x.2.1 :=
    fun x hx => targets_gather hset ((hmem x).mp hx)
  have hbounded : ∀ x ∈ sortEdges (gather nfa set), ∀ q ∈ x.2.2, q < nfa.states.length := by
    intro x hx q hq
    obtain ⟨r, _, hstep⟩ := (hafter x hx q).mp hq
    exact (hG r _ q hstep).1
  have hlabel : ∀ x ∈ sortEdges (gather nfa set), x.2.1 ≠ .endElement := by
    intro x hx
    obtain ⟨t, ht⟩ := tidy_gather.2 x ((hmem x).mp hx)
    obtain ⟨r, _, hstep⟩ := (hafter x hx t).mp ht
    exact (hG r _ t hstep).2 x.2.1 rfl
  -- each entry has its production, which leads to the closure of where its edges do
  obtain ⟨hsound, hgrown, hall, heach⟩ := follow_spec hG hbounded h
  have hclosing : ∀ p ∈ closing nfa accept false set id, p.event = .endElement ∧ accept ∈ set := by
    intro p hp
    rw [closing, Bool.false_and, if_neg Bool.false_ne_true, List.append_nil] at hp
    split at hp
    · rename_i haccept
      rw [List.mem_singleton.mp hp]
      exact ⟨rfl, haccept⟩
    · exact absurd hp List.not_mem_nil
  -- the end is offered where the set accepts; a production leads to its closure; each edge has one
  refine ⟨hsound, hgrown, ⟨?_, ?_, ?_⟩⟩
  -- the end of the element is no entry, so it is offered by `closing` alone
  · constructor
    · rintro ⟨p, hp, he⟩
      rcases List.mem_append.mp hp with hp | hp
      · obtain ⟨x, hx, hevent, _⟩ := heach p hp
        exact absurd (hevent.symm.trans he) (hlabel x hx)
      · exact (hclosing p hp).2
    · intro haccept
      refine ⟨⟨.endElement, noTarget⟩, List.mem_append_right _ ?_, rfl⟩
      rw [closing, if_pos haccept]
      exact List.mem_append_left _ (List.mem_singleton.mpr rfl)
  · intro p hp he
    rcases List.mem_append.mp hp with hp | hp
    · obtain ⟨x, hx, hevent, htarget⟩ := heach p hp
      refine ⟨_, htarget, fun t => ?_⟩
      have hsame : ((x.2.2 : Finset Nat) : Set Nat) = after nfa set p.event := by
        ext q
        rw [hevent]
        exact hafter x hx q
      rw [Nfa.mem_closure_iff (M := nfa.machine accept) rfl hG (hbounded x hx), hsame]
    · exact absurd (hclosing p hp).1 he
  · intro e t ht
    obtain ⟨x, hx, he⟩ := exists_mem_gather hset ht
    obtain ⟨p, hp, hevent⟩ := hall x ((hmem x).mpr hx)
    exact ⟨p, List.mem_append_left _ hp, hevent.trans he⟩

/-- Where the loop stands: the sets before `head` have their states. -/
structure Progress (nfa : Nfa) (accept : Nat) (head : Nat) (found : Found) : Prop where
  sound : found.Sound nfa
  inside : head ≤ found.queue.length
  described : ∀ i set, i < head → found.queue[i]? = some set → ∃ s, found.states[i]? = some s ∧
    Describes nfa accept found.queue set s.productions

/-- One turn of the loop, for the set at its head. -/
def Found.turn (nfa : Nfa) (accept : Nat) (set : Finset Nat) (found : Found) : Found :=
  { (follow nfa (sortEdges (gather nfa set)) found).2 with
    states := (follow nfa (sortEdges (gather nfa set)) found).2.states.set (found.queue.idxOf set)
      ⟨(follow nfa (sortEdges (gather nfa set)) found).1
        ++ closing nfa accept false set (found.queue.idxOf set)⟩ }

/-- A turn writes the state of its set, and of no other. -/
theorem turn_states (hG : nfa.graph.Closed Labels) {head : Nat} {found : Found}
    (h : Progress nfa accept head found) {set : Finset Nat} (hset : found.queue[head]? = some set) :
    (∀ i s, i < head → found.states[i]? = some s →
        (found.turn nfa accept set).states[i]? = some s)
      ∧ (found.turn nfa accept set).states[head]?
        = some ⟨(follow nfa (sortEdges (gather nfa set)) found).1
            ++ closing nfa accept false set head⟩ := by
  obtain ⟨hlt, heq⟩ := List.getElem?_eq_some_iff.mp hset
  have hid : found.queue.idxOf set = head := by
    rw [← heq]
    exact h.sound.distinct.idxOf_getElem head hlt
  have hbounded : ∀ q ∈ set, q < nfa.states.length :=
    h.sound.bounded set (heq ▸ List.getElem_mem hlt)
  obtain ⟨hsound, hgrown, -⟩ := describes_turn accept hG h.sound hbounded head
  have hlength := hgrown.queue.length_le
  unfold Found.turn
  rw [hid]
  refine ⟨fun i s hi hs => ?_, List.getElem?_set_self (by rw [hsound.sizes]; omega)⟩
  rw [List.getElem?_set_ne (by omega)]
  exact prefix_getElem? hgrown.states hs

/-- One turn of the loop gives the next subset its state, and only adds to the queue. -/
theorem Progress.turn (hG : nfa.graph.Closed Labels) {head : Nat} {found : Found}
    (h : Progress nfa accept head found) {set : Finset Nat} (hset : found.queue[head]? = some set) :
    found.queue <+: (found.turn nfa accept set).queue
      ∧ Progress nfa accept (head + 1) (found.turn nfa accept set) := by
  obtain ⟨hlt, heq⟩ := List.getElem?_eq_some_iff.mp hset
  have hbounded : ∀ q ∈ set, q < nfa.states.length :=
    h.sound.bounded set (heq ▸ List.getElem_mem hlt)
  obtain ⟨hsound, hgrown, hdescribes⟩ := describes_turn accept hG h.sound hbounded head
  obtain ⟨hold, hnew⟩ := turn_states hG h hset
  have hlength := hgrown.queue.length_le
  refine ⟨hgrown.queue, ⟨⟨?_, hsound.distinct, hsound.bounded⟩, hlt.trans_le hlength, ?_⟩⟩
  · unfold Found.turn
    rw [List.length_set]
    exact hsound.sizes
  · intro i other hi hother
    rcases Nat.lt_or_ge i head with hbefore | hnow
    · -- described before, and nothing has been taken from the queue or the states since
      have hilt : i < found.queue.length := by omega
      have hq : found.queue[i]? = some found.queue[i] := List.getElem?_eq_getElem hilt
      have hsame : some other = some found.queue[i] := by
        rw [← hother]
        exact prefix_getElem? hgrown.queue hq
      obtain ⟨s, hs, hdesc⟩ := h.described i other hbefore (hq.trans hsame.symm)
      exact ⟨s, hold i s hbefore hs, hdesc.mono hgrown.queue⟩
    · obtain rfl : i = head := by omega
      have hsame : some other = some set := by
        rw [← hother]
        exact prefix_getElem? hgrown.queue hset
      obtain rfl : other = set := Option.some.inj hsame
      exact ⟨_, hnew, hdescribes⟩

/-- There are no more sets than sets of states. -/
theorem Found.Sound.length_le {found : Found} (h : found.Sound nfa) :
    found.queue.length ≤ 2 ^ nfa.states.length := by
  have hsub : found.queue.toFinset ⊆ (Finset.range nfa.states.length).powerset := by
    intro set hset
    refine Finset.mem_powerset.mpr fun q hq => Finset.mem_range.mpr ?_
    exact h.bounded set (List.mem_toFinset.mp hset) q hq
  have hcard := Finset.card_le_card hsub
  rwa [List.toFinset_card_of_nodup h.distinct, Finset.card_powerset, Finset.card_range] at hcard

theorem subsets_succ (fuel head : Nat) (found : Found) :
    subsets nfa accept false (fuel + 1) head found
      = (found.queue[head]?).elim found fun set =>
          subsets nfa accept false fuel (head + 1) (found.turn nfa accept set) := by
  rw [subsets]
  cases found.queue[head]? <;> rfl

/-- With turns enough, more change nothing. In the end every set is described, and what a turn
preserves holds. -/
theorem subsets_run (hG : nfa.graph.Closed Labels) {P : Nat → Found → Prop}
    (hturn : ∀ {head : Nat} {found : Found} {set : Finset Nat}, Progress nfa accept head found →
      found.queue[head]? = some set → P head found → P (head + 1) (found.turn nfa accept set))
    {fuel head : Nat} {found : Found} (h : Progress nfa accept head found)
    (hfuel : 2 ^ nfa.states.length ≤ fuel + head) (hP : P head found) :
    ∃ final, (∀ more, subsets nfa accept false (fuel + more) head found = final)
      ∧ Progress nfa accept final.queue.length final ∧ P final.queue.length final := by
  -- induction on the turns left: with none, the head has passed all the sets there can be
  induction fuel generalizing head found with
  | zero =>
      have hlength := h.sound.length_le
      have hhead := h.inside
      obtain rfl : head = found.queue.length := by omega
      refine ⟨found, fun more => ?_, h, hP⟩
      cases more with
      | zero => rfl
      | succ more =>
        rw [Nat.zero_add, subsets_succ, List.getElem?_eq_none le_rfl]
        rfl
  | succ fuel ih =>
      cases hset : found.queue[head]? with
      | none =>
          have hhead := h.inside
          have hge := List.getElem?_eq_none_iff.mp hset
          obtain rfl : head = found.queue.length := by omega
          refine ⟨found, fun more => ?_, h, hP⟩
          rw [Nat.add_right_comm, subsets_succ, hset]
          rfl
      | some set =>
          obtain ⟨-, hprogress⟩ := h.turn hG hset
          obtain ⟨final, hfinal, hend, hPend⟩ :=
            ih hprogress (by omega) (hturn h hset hP)
          refine ⟨final, fun more => ?_, hend, hPend⟩
          rw [← hfinal more, Nat.add_right_comm, subsets_succ, hset]
          rfl

/-- In the end every set has its state. -/
theorem described_subsets (hG : nfa.graph.Closed Labels) {fuel head : Nat} {found : Found}
    (h : Progress nfa accept head found) (hfuel : 2 ^ nfa.states.length ≤ fuel + head) :
    found.queue <+: (subsets nfa accept false fuel head found).queue ∧
      Progress nfa accept (subsets nfa accept false fuel head found).queue.length
        (subsets nfa accept false fuel head found) := by
  obtain ⟨final, hfinal, hend, hbefore⟩ :=
    subsets_run hG (P := fun _ later => found.queue <+: later.queue)
      (fun hprogress hset hbefore => hbefore.trans (hprogress.turn hG hset).1) h hfuel
      (List.prefix_refl _)
  have hsame : subsets nfa accept false fuel head found = final := hfinal 0
  rw [hsame]
  exact ⟨hbefore, hend⟩

end Queue

/-! ## What the grammar spells

Behind a word the grammar is in the state of the set that the automaton can be in. By induction
on the word, for any set to begin with. -/

section Spells

variable {nfa : Nfa} {accept : Nat}

theorem mem_stepSet_iff_after {M : εNFA Event Nat} (hM : M.step = nfa.graph.step)
    (set : Finset Nat) (e : Event) (t : Nat) :
    t ∈ M.stepSet set e ↔ t ∈ M.εClosure (after nfa set e) := by
  rw [εNFA.mem_stepSet_iff, M.mem_εClosure_iff_exists]
  constructor
  · rintro ⟨q, hq, ht⟩
    obtain ⟨r, hr, ht⟩ := M.mem_εClosure_iff_exists.mp ht
    exact ⟨r, ⟨q, hq, by rwa [hM] at hr⟩, ht⟩
  · rintro ⟨r, ⟨q, hq, hr⟩, ht⟩
    refine ⟨q, hq, M.mem_εClosure_iff_exists.mpr ⟨r, ?_, ht⟩⟩
    rwa [hM]

theorem foldl_stepSet_empty (M : εNFA Event Nat) (w : List Event) :
    List.foldl M.stepSet ∅ w = ∅ := by
  induction w with
  | nil => rfl
  | cons e w ih => rw [List.foldl_cons, εNFA.stepSet_empty, ih]

/-- What the grammar spells from the state of a set is what the automaton does from there: every
production leads to the state of the set that its event leads to. Induction on the word. -/
theorem spells_set_iff (hG : nfa.graph.Closed Labels) {found : Found}
    (h : Progress nfa accept found.queue.length found) (w : List Event) (i : Nat)
    (set : Finset Nat) (hset : found.queue[i]? = some set) :
    (Grammar.mk found.states).Spells i w
      ↔ accept ∈ List.foldl (nfa.machine accept).stepSet set w := by
  induction w generalizing i set with
  | nil =>
      obtain ⟨hlt, _⟩ := List.getElem?_eq_some_iff.mp hset
      obtain ⟨s, hs, hdesc⟩ := h.described i set hlt hset
      -- the end is offered where the set accepts
      rw [List.foldl_nil, Finset.mem_coe, ← hdesc.ends]
      constructor
      · intro hspells
        cases hspells with
        | done hs' hp he =>
            obtain rfl := Option.some.inj (hs.symm.trans hs')
            exact ⟨_, hp, he⟩
      · rintro ⟨p, hp, he⟩
        exact Grammar.Spells.done hs hp he
  | cons e w ih =>
      obtain ⟨hlt, _⟩ := List.getElem?_eq_some_iff.mp hset
      obtain ⟨s, hs, hdesc⟩ := h.described i set hlt hset
      -- a production of the event leads to the set the automaton is in next
      have hnext : ∀ p ∈ s.productions, p.event ≠ .endElement → ∃ target,
          found.queue[p.target]? = some target ∧
            (target : Set Nat) = (nfa.machine accept).stepSet set p.event := by
        intro p hp he
        obtain ⟨target, htarget, hclosure⟩ := hdesc.leads p hp he
        refine ⟨target, htarget, ?_⟩
        ext t
        rw [mem_stepSet_iff_after rfl]
        exact hclosure t
      rw [List.foldl_cons]
      constructor
      · intro hspells
        cases hspells with
        | step hs' hp he hw =>
            obtain rfl := Option.some.inj (hs.symm.trans hs')
            obtain ⟨target, htarget, hsame⟩ := hnext _ hp he
            rw [← hsame]
            exact (ih _ target htarget).mp hw
      · intro haccept
        -- some state of the set has an edge of this event, or nothing could be accepted behind it
        have hsome : ∃ t, t ∈ after nfa set e := by
          by_contra hnone
          have hempty : (nfa.machine accept).stepSet set e = ∅ := by
            have hafter : after nfa set e = ∅ :=
              Set.eq_empty_iff_forall_notMem.mpr fun t ht => hnone ⟨t, ht⟩
            ext t
            rw [mem_stepSet_iff_after rfl, hafter, εNFA.εClosure_empty]
          rw [hempty, foldl_stepSet_empty] at haccept
          exact absurd haccept (Set.notMem_empty _)
        obtain ⟨t, q, hq, ht⟩ := hsome
        obtain ⟨p, hp, rfl⟩ := hdesc.offers e t ⟨q, hq, ht⟩
        have he : p.event ≠ .endElement := (hG q _ t ht).2 p.event rfl
        obtain ⟨target, htarget, hsame⟩ := hnext p hp he
        rw [← hsame] at haccept
        exact Grammar.Spells.step hs hp he ((ih _ target htarget).mpr haccept)

theorem singleton_bounded {entry : Nat} (hentry : entry < nfa.states.length) :
    ∀ q ∈ ({entry} : Finset Nat), q < nfa.states.length := by
  intro q hq
  obtain rfl : q = entry := Finset.mem_singleton.mp hq
  exact hentry

/-- Where the loop begins: with the closure of the entry. -/
theorem progress_begin (hG : nfa.graph.Closed Labels) {entry : Nat}
    (hentry : entry < nfa.states.length) :
    Progress nfa accept 0 ⟨[nfa.closure {entry}], [{}]⟩ := by
  refine ⟨⟨rfl, List.nodup_singleton _, fun set hset => ?_⟩, Nat.zero_le _, fun i set hi => ?_⟩
  · obtain rfl : set = nfa.closure {entry} := List.mem_singleton.mp hset
    exact Nfa.closure_bounded hG (singleton_bounded hentry)
  · exact absurd hi (Nat.not_lt_zero i)

theorem coe_closure_singleton (hG : nfa.graph.Closed Labels) {entry : Nat}
    (hentry : entry < nfa.states.length) :
    ((nfa.closure {entry} : Finset Nat) : Set Nat) = (nfa.machine accept).εClosure {entry} := by
  ext t
  have h := Nfa.mem_closure_iff (M := nfa.machine accept) rfl hG (singleton_bounded hentry) t
  rw [Finset.coe_singleton] at h
  exact h

/-- The grammar spells what the automaton does. -/
theorem spells_determinise_iff (hG : nfa.graph.Closed Labels) {entry : Nat}
    (hentry : entry < nfa.states.length) (w : List Event) :
    (determinise nfa entry accept false).Spells 0 w
      ↔ Spells (nfa.machine accept) entry w accept := by
  obtain ⟨hbefore, hend⟩ :=
    described_subsets hG (progress_begin hG hentry) (le_refl (2 ^ nfa.states.length))
  have hset := spells_set_iff hG hend w 0 _ (prefix_getElem? hbefore (i := 0) rfl)
  rw [coe_closure_singleton hG hentry] at hset
  exact hset.trans (nfa.machine accept).mem_evalFrom_iff_exists_path

end Spells

end Builder

end Iso15118.Codegen
