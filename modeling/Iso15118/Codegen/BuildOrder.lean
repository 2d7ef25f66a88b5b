import Iso15118.Codegen.EventOrder
import Iso15118.Codegen.Flatten

/-!
# Built in the order of the codes

An automaton is built item by item, so its edges are numbered in the order the items come in, and
from every edge the way on to the exit stays open. `Extends` is both, for what one piece adds to an
automaton between two stages; **`builds_flatten`** is that pieces made of content models that can be
flattened are built so.
-/

namespace Iso15118.Codegen

open Lib

namespace Nfa

/-! ## Stages of an automaton

Between two stages edges are only added. Each takes the next number, so an edge added later has
the greater one, and it is enough to compare a new edge with those there are. -/

/-- A state leads to another, by whatever edges. -/
def Leads (nfa : Nfa) : Nat → Nat → Prop :=
  Relation.ReflTransGen fun q t => ∃ a, t ∈ nfa.graph.step q a

theorem Leads.single {nfa : Nfa} {q t : Nat} {a : Option Event} (h : t ∈ nfa.graph.step q a) :
    nfa.Leads q t := Relation.ReflTransGen.single ⟨a, h⟩

theorem Leads.mono {nfa nfa' : Nfa} {q t : Nat} (h : nfa.Leads q t)
    (hkeeps : ∀ q a, nfa.graph.step q a ⊆ nfa'.graph.step q a) : nfa'.Leads q t := by
  induction h with
  | refl => exact .refl
  | tail _ hstep ih =>
    obtain ⟨a, hin⟩ := hstep
    exact ih.tail ⟨a, hkeeps _ a hin⟩

/-- The edges have been made in the order of their ranks, all of which are below `high`. The
wildcard is last in every state, whenever it was made. -/
structure Ranked (rank : Event → Nat) (high : Nat) (nfa : Nfa) : Prop where
  below : ∀ {order event}, nfa.HasEdge order event → event ≠ .wildcard → rank event < high
  ordered : ∀ {order event order' event'}, nfa.HasEdge order event →
    nfa.HasEdge order' event' → event ≠ .wildcard → event' ≠ .wildcard →
    rank event < rank event' → order < order'

section Primitives

variable {nfa : Nfa} {order : Nat} {event : Event}

theorem hasEdge_addState (h : nfa.addState.2.HasEdge order event) : nfa.HasEdge order event := by
  obtain ⟨q, target, hin⟩ := h
  rw [state_addState] at hin
  split at hin
  · cases hin
  · exact ⟨q, target, hin⟩

theorem hasEdge_epsilon {source dest : Nat} (hsource : source < nfa.states.length)
    (h : (nfa.epsilon source dest).HasEdge order event) : nfa.HasEdge order event := by
  obtain ⟨q, target, hin⟩ := h
  rw [state_modify (m := nfa.epsilon source dest) hsource rfl q] at hin
  split at hin <;> exact ⟨q, target, hin⟩

theorem hasEdge_enterContent {cursor : Nat} (hcursor : cursor < nfa.states.length)
    (h : (Builder.enterContent nfa cursor).HasEdge order event) : nfa.HasEdge order event := by
  obtain ⟨q, target, hin⟩ := h
  rw [state_modify (m := Builder.enterContent nfa cursor) hcursor rfl q] at hin
  split at hin <;> exact ⟨q, target, hin⟩

theorem not_hasEdge_new : ¬ Nfa.new.HasEdge order event := by
  rintro ⟨q, target, hin⟩
  have htarget : target ∈ Nfa.new.graph.step q (some event) := ⟨order, hin⟩
  rw [graph_new_step] at htarget
  cases htarget

end Primitives

section Ranked

variable {rank : Event → Nat} {low high : Nat} {nfa nfa' : Nfa}

theorem Ranked.mono (h : nfa.Ranked rank low) (hle : low ≤ high)
    (hedge : ∀ {order event}, nfa'.HasEdge order event → nfa.HasEdge order event) :
    nfa'.Ranked rank high where
  below he hdeclared := (h.below (hedge he) hdeclared).trans_le hle
  ordered he he' := h.ordered (hedge he) (hedge he')

/-- One more edge, of no smaller rank than those there are. -/
theorem Ranked.edge (h : nfa.Ranked rank low) (hordered : nfa.Ordered) {source dest : Nat}
    {event : Event} (hsource : source < nfa.states.length) (hle : low ≤ high)
    (hrank : event ≠ .wildcard → low ≤ rank event + 1 ∧ rank event < high) :
    (nfa.edge source event dest).Ranked rank high := by
  constructor
  · intro order e he hdeclared
    rcases hasEdge_edge hsource he with hold | ⟨-, rfl⟩
    · exact (h.below hold hdeclared).trans_le hle
    · exact (hrank hdeclared).2
  · intro order e order' e' he he' hdeclared hdeclared' hlt
    rcases hasEdge_edge hsource he with hold | ⟨rfl, rfl⟩
    · rcases hasEdge_edge hsource he' with hold' | ⟨rfl, rfl⟩
      · exact h.ordered hold hold' hdeclared hdeclared' hlt
      · exact hordered.below hold
    · rcases hasEdge_edge hsource he' with hold' | ⟨rfl, rfl⟩
      · have hbelow := h.below hold' hdeclared'
        have hnew := (hrank hdeclared).1
        omega
      · exact absurd hlt (lt_irrefl _)

end Ranked

/-! ## What is added between two stages

`Extends` is transitive: the exit of the first piece is the entry of the second, and the ranks of
the second begin where those of the first end. -/

/-- From one stage to a later one: the way from `s` to `x` is open, it is so from every edge that
was added, and edges are still in the order of their ranks. -/
structure Extends (rank : Event → Nat) (low high : Nat) (nfa nfa' : Nfa) (s x : Nat) : Prop where
  exit : x < nfa'.states.length
  size : nfa.states.length ≤ nfa'.states.length
  made : nfa.Made → nfa'.Made
  keeps : ∀ q a, nfa.graph.step q a ⊆ nfa'.graph.step q a
  leads : nfa'.Leads s x
  trim : ∀ q event t, t ∈ nfa'.graph.step q (some event) →
    t ∈ nfa.graph.step q (some event) ∨ nfa'.Leads t x
  ranked : nfa.Made → nfa.Ranked rank low → nfa'.Ranked rank high

namespace Extends

variable {rank : Event → Nat} {low mid high : Nat} {nfa nfa₁ nfa₂ : Nfa} {s m x : Nat}

/-- Nothing is added. -/
theorem stay (hx : x < nfa.states.length) (hleads : nfa.Leads s x) (hle : low ≤ high) :
    Extends rank low high nfa nfa s x where
  exit := hx
  size := le_rfl
  made h := h
  keeps _ _ := subset_rfl
  leads := hleads
  trim _ _ _ h := .inl h
  ranked _ h := h.mono hle fun he => he

theorem trans (h₁ : Extends rank low mid nfa nfa₁ s m) (h₂ : Extends rank mid high nfa₁ nfa₂ m x) :
    Extends rank low high nfa nfa₂ s x where
  exit := h₂.exit
  size := h₁.size.trans h₂.size
  made h := h₂.made (h₁.made h)
  keeps q a := (h₁.keeps q a).trans (h₂.keeps q a)
  leads := (h₁.leads.mono h₂.keeps).trans h₂.leads
  trim q event t ht := by
    rcases h₂.trim q event t ht with ht | ht
    · exact (h₁.trim q event t ht).imp id fun hm => (hm.mono h₂.keeps).trans h₂.leads
    · exact .inr ht
  ranked hmade h := h₂.ranked (h₁.made hmade) (h₁.ranked hmade h)

theorem mono {low' high' : Nat} (h : Extends rank low high nfa nfa₁ s x) (hlow : low' ≤ low)
    (hhigh : high ≤ high') : Extends rank low' high' nfa nfa₁ s x where
  exit := h.exit
  size := h.size
  made := h.made
  keeps := h.keeps
  leads := h.leads
  trim := h.trim
  ranked hmade hranked :=
    (h.ranked hmade (hranked.mono hlow fun he => he)).mono hhigh fun he => he

/-- On to where the exit leads. -/
theorem onward (h : Extends rank low high nfa nfa₁ s m) (hx : x < nfa₁.states.length)
    (hleads : nfa₁.Leads m x) : Extends rank low high nfa nfa₁ s x :=
  h.trans (stay hx hleads le_rfl)

/-- A new state. -/
theorem addState (rank : Event → Nat) (low : Nat) (hs : s < nfa.states.length) :
    Extends rank low low nfa nfa.addState.2 s s := by
  have hsize : nfa.addState.2.states.length = nfa.states.length + 1 := by
    rw [← graph_size, graph_addState]
    rfl
  have hstep : nfa.addState.2.graph.step = nfa.graph.step := by
    rw [graph_addState]
    rfl
  refine ⟨by omega, by omega, .addState, fun q a => ?_, .refl, fun q event t ht => .inl ?_,
    fun _ h => h.mono le_rfl hasEdge_addState⟩
  · rw [hstep]
  · rwa [hstep] at ht

/-- An edge without a label. -/
theorem epsilon (h : Extends rank low high nfa nfa₁ s x) {source dest : Nat}
    (hsource : source < nfa₁.states.length) (hdest : dest < nfa₁.states.length) :
    Extends rank low high nfa (nfa₁.epsilon source dest) s x
      ∧ (nfa₁.epsilon source dest).Leads source dest := by
  have hsize : (nfa₁.epsilon source dest).states.length = nfa₁.states.length :=
    List.length_modify ..
  have hstep : ∀ q a t, t ∈ (nfa₁.epsilon source dest).graph.step q a
      ↔ t ∈ nfa₁.graph.step q a ∨ (q = source ∧ a = none ∧ t = dest) := by
    intro q a t
    rw [graph_epsilon hsource]
    exact Iff.rfl
  have hkeeps : ∀ q a, nfa₁.graph.step q a ⊆ (nfa₁.epsilon source dest).graph.step q a :=
    fun q a t ht => (hstep q a t).mpr (.inl ht)
  refine ⟨⟨hsize ▸ h.exit, hsize ▸ h.size, fun hmade => (h.made hmade).epsilon hsource hdest,
    fun q a => (h.keeps q a).trans (hkeeps q a), h.leads.mono hkeeps, fun q event t ht => ?_,
    fun hmade hranked => (h.ranked hmade hranked).mono le_rfl (hasEdge_epsilon hsource)⟩,
    .single ((hstep source none dest).mpr (.inr ⟨rfl, rfl, rfl⟩))⟩
  rcases (hstep q (some event) t).mp ht with ht | ⟨-, hnone, -⟩
  · exact (h.trim q event t ht).imp id fun hleads => hleads.mono hkeeps
  · cases hnone

/-- An edge to a new state. -/
theorem edge (hs : s < nfa.states.length) {event : Event} (hevent : event ≠ .endElement)
    (hle : low ≤ high)
    (hrank : event ≠ .wildcard → low ≤ rank event + 1 ∧ rank event < high) :
    Extends rank low high nfa (nfa.addState.2.edge s event nfa.states.length) s
      nfa.states.length := by
  have hgrow := addState rank low hs
  have hsize : nfa.addState.2.states.length = nfa.states.length + 1 := by
    rw [← graph_size, graph_addState]
    rfl
  have hsource : s < nfa.addState.2.states.length := by omega
  have hlength : (nfa.addState.2.edge s event nfa.states.length).states.length
      = nfa.states.length + 1 := by
    rw [← hsize]
    exact List.length_modify ..
  -- one edge more, to the state just added
  have hstep : ∀ q a t, t ∈ (nfa.addState.2.edge s event nfa.states.length).graph.step q a
      ↔ t ∈ nfa.graph.step q a ∨ (q = s ∧ a = some event ∧ t = nfa.states.length) := by
    intro q a t
    rw [graph_edge hsource]
    show t ∈ nfa.addState.2.graph.step q a ∨ _ ↔ _
    rw [graph_addState]
    exact Iff.rfl
  constructor
  · omega
  · omega
  · intro hmade
    exact .edge hmade.addState hsource (by omega) hevent
  · exact fun q a t ht => (hstep q a t).mpr (.inl ht)
  · exact .single ((hstep s (some event) _).mpr (.inr ⟨rfl, rfl, rfl⟩))
  · intro q e t ht
    rcases (hstep q (some e) t).mp ht with ht | ⟨-, -, rfl⟩
    · exact .inl ht
    · exact .inr .refl
  · intro hmade hranked
    exact (hgrow.ranked hmade hranked).edge hmade.addState.ordered hsource hle hrank

end Extends

end Nfa

namespace Builder

open Nfa

/-! ## What bodies add

A repetition runs its body several times. Later occurrences have the events of the first and so
no ranks of their own, which is why a repeated body has one event only, or is built once. -/

/-- A body never fails, and adds what it does in order. -/
def Builds (rank : Event → Nat) (low high : Nat) (body : Body) : Prop :=
  ∀ nfa s, s < nfa.states.length →
    ∃ x nfa', body nfa s = .ok (x, nfa') ∧ Extends rank low high nfa nfa' s x

section Bodies

variable {rank : Event → Nat} {low mid high : Nat} {body : Body}

theorem Builds.mono {low' high' : Nat} (h : Builds rank low high body) (hlow : low' ≤ low)
    (hhigh : high ≤ high') : Builds rank low' high' body := by
  intro nfa s hs
  obtain ⟨x, nfa', heq, hext⟩ := h nfa s hs
  exact ⟨x, nfa', heq, hext.mono hlow hhigh⟩

theorem builds_single {event : Event} (hevent : event ≠ .endElement) (hle : low ≤ high)
    (hrank : event ≠ .wildcard → low ≤ rank event + 1 ∧ rank event < high) :
    Builds rank low high (single event) :=
  fun _ _ hs => ⟨_, _, rfl, .edge hs hevent hle hrank⟩

/-- Nothing, and then the body again and again. -/
theorem builds_mandatory_again (h : Builds rank high high body) (n : Nat) :
    Builds rank high high (mandatory body n) := by
  induction n with
  | zero => exact fun nfa s hs => ⟨s, nfa, rfl, .stay hs .refl le_rfl⟩
  | succ n ih =>
    intro nfa s hs
    obtain ⟨m, nfa₁, heq, hext⟩ := h nfa s hs
    obtain ⟨x, nfa₂, hmore, hext'⟩ := ih nfa₁ m hext.exit
    refine ⟨x, nfa₂, ?_, hext.trans hext'⟩
    rw [mandatory, heq]
    exact hmore

/-- The first occurrence is what is new, the others are that again. -/
theorem builds_mandatory (hfirst : Builds rank low high body) {n : Nat}
    (hmore : 1 < n → Builds rank high high body) :
    Builds rank low (if n = 0 then low else high) (mandatory body n) := by
  intro nfa s hs
  cases n with
  | zero => exact ⟨s, nfa, rfl, .stay hs .refl le_rfl⟩
  | succ n =>
    obtain ⟨m, nfa₁, heq, hext⟩ := hfirst nfa s hs
    rw [if_neg (Nat.succ_ne_zero n)]
    have hrest : ∃ x nfa₂, mandatory body n nfa₁ m = .ok (x, nfa₂)
        ∧ Extends rank high high nfa₁ nfa₂ m x := by
      cases n with
      | zero => exact ⟨m, nfa₁, rfl, .stay hext.exit .refl le_rfl⟩
      | succ n =>
        exact builds_mandatory_again (hmore (Nat.succ_lt_succ n.succ_pos)) (n + 1) nfa₁ m hext.exit
    obtain ⟨x, nfa₂, hmore, hext'⟩ := hrest
    refine ⟨x, nfa₂, ?_, hext.trans hext'⟩
    rw [mandatory, heq]
    exact hmore

/-- What goes on from a state to an exit there is. -/
def Closes (rank : Event → Nat) (low high : Nat) (build : Nfa → Nat → Except GrammarError Nfa)
    (x : Nat) : Prop :=
  ∀ nfa s, s < nfa.states.length → x < nfa.states.length → nfa.Leads s x →
    ∃ nfa', build nfa s = .ok nfa' ∧ Extends rank low high nfa nfa' s x

theorem closes_optional_again {x : Nat} (h : Builds rank high high body) (n : Nat) :
    Closes rank high high (optional body x n) x := by
  induction n with
  | zero => exact fun nfa s hs hx hleads => ⟨nfa, rfl, .stay hx hleads le_rfl⟩
  | succ n ih =>
    intro nfa s hs hx hleads
    obtain ⟨m, nfa₁, heq, hext⟩ := h nfa s hs
    obtain ⟨hext₁, hleads₁⟩ := hext.epsilon hext.exit (hx.trans_le hext.size)
    have hx₁ : x < (nfa₁.epsilon m x).states.length := hx.trans_le hext₁.size
    obtain ⟨nfa₂, hmore, hext₂⟩ := ih _ m hext₁.exit hx₁ hleads₁
    refine ⟨nfa₂, ?_, hext₁.trans hext₂⟩
    rw [optional, heq]
    exact hmore

/-- Optional copies close on the exit, each of them and the way round them. -/
theorem closes_optional {x n : Nat} (hle : low ≤ high) (hfirst : Builds rank low high body)
    (hmore : 1 < n → Builds rank high high body) :
    Closes rank low high (optional body x n) x := by
  intro nfa s hs hx hleads
  cases n with
  | zero => exact ⟨nfa, rfl, .stay hx hleads hle⟩
  | succ n =>
    obtain ⟨m, nfa₁, heq, hext⟩ := hfirst nfa s hs
    obtain ⟨hext₁, hleads₁⟩ := hext.epsilon hext.exit (hx.trans_le hext.size)
    have hx₁ : x < (nfa₁.epsilon m x).states.length := hx.trans_le hext₁.size
    have hrest : ∃ nfa₂, optional body x n (nfa₁.epsilon m x) m = .ok nfa₂
        ∧ Extends rank high high (nfa₁.epsilon m x) nfa₂ m x := by
      cases n with
      | zero => exact ⟨_, rfl, .stay hx₁ hleads₁ le_rfl⟩
      | succ n =>
        exact closes_optional_again (hmore (Nat.succ_lt_succ n.succ_pos)) (n + 1) _ m hext₁.exit
          hx₁ hleads₁
    obtain ⟨nfa₂, hmore, hext₂⟩ := hrest
    refine ⟨nfa₂, ?_, hext₁.trans hext₂⟩
    rw [optional, heq]
    exact hmore

/-- What follows the mandatory occurrences makes its own way to the exit. -/
theorem exists_tail {min max : Nat} (hle : low ≤ high) (hfirst : Builds rank low high body)
    (hmore : 1 < max → Builds rank high high body) (nfa : Nfa) (s x : Nat)
    (hs : s < nfa.states.length) (hx : x < nfa.states.length) :
    ∃ nfa', Builder.tail body x min max nfa s = .ok nfa'
      ∧ Extends rank low high nfa nfa' s x := by
  unfold Builder.tail
  split
  · -- round and round, and out from where it started
    obtain ⟨m, nfa₁, heq, hext⟩ := hfirst nfa s hs
    obtain ⟨hback, hleads⟩ := hext.epsilon hext.exit (hs.trans_le hext.size)
    obtain ⟨hout, hleads'⟩ :=
      hback.epsilon (hs.trans_le hback.size) (hx.trans_le hback.size)
    rw [heq]
    refine ⟨_, rfl, hout.onward (hx.trans_le hout.size) (Relation.ReflTransGen.trans ?_ hleads')⟩
    refine hleads.mono fun q a t ht => ?_
    rw [graph_epsilon (hs.trans_le hback.size)]
    exact .inl ht
  · have hstay : Extends rank low low nfa nfa s s := .stay hs .refl le_rfl
    obtain ⟨hskip, hleads⟩ := hstay.epsilon hs hx
    obtain ⟨nfa', heq, hext⟩ := closes_optional (n := max - min) hle hfirst
      (fun hn => hmore (by omega)) _ s hskip.exit (hx.trans_le hskip.size) hleads
    exact ⟨nfa', heq, hskip.trans hext⟩

/-- `Builder::repeat`, around a body whose later occurrences add nothing new to the order. -/
theorem builds_occurs {min max : Nat} (hle : low ≤ high) (hbounds : Unrolled min max)
    (hfirst : Builds rank low high body) (hmore : 1 < max → Builds rank high high body) :
    Builds rank low high fun nfa entry => occurs nfa entry min max body := by
  intro nfa s hs
  have hgrow := Extends.addState rank low hs
  have hsize : nfa.addState.2.states.length = nfa.states.length + 1 := by
    rw [← graph_size, graph_addState]
    rfl
  have hmin : min ≤ max := hbounds.1
  -- the required copies first
  obtain ⟨m, nfa₁, hcopies, hext⟩ := builds_mandatory (n := min) hfirst
    (fun hn => hmore (by omega)) nfa.addState.2 s hgrow.exit
  have hx : nfa.states.length < nfa₁.states.length := by
    have hle := hext.size
    omega
  -- what follows them: a loop, the optional copies, or nothing
  have htail : ∃ nfa₂, Builder.tail body nfa.states.length min max nfa₁ m = .ok nfa₂
      ∧ Extends rank (if min = 0 then low else high) high nfa₁ nfa₂ m nfa.states.length := by
    split
    · exact exists_tail hle hfirst hmore nfa₁ m _ hext.exit hx
    · by_cases hmany : 1 < max
      · exact exists_tail le_rfl (hmore hmany) hmore nfa₁ m _ hext.exit hx
      · -- the one occurrence there may be is there
        have hstay : Extends rank high high nfa₁ nfa₁ m m := .stay hext.exit .refl le_rfl
        have hskip := hstay.epsilon hext.exit hx
        have hbounded : ¬ (max = unbounded ∨ maxUnroll < max) := by
          have hmax : max ≤ 1 := by omega
          unfold unbounded maxUnroll
          omega
        refine ⟨_, ?_, hskip.1.onward (hx.trans_le hskip.1.size) hskip.2⟩
        unfold Builder.tail
        rw [if_neg hbounded, show max - min = 0 by omega]
        rfl
  obtain ⟨nfa₂, hout, hext'⟩ := htail
  refine ⟨nfa.states.length, nfa₂, ?_, hgrow.trans (hext.trans hext')⟩
  have hrequired : Nat.min min maxUnroll = min := hbounds.required
  refine bind_eq_ok.mpr ⟨(m, nfa₁), ?_, bind_eq_ok.mpr ⟨nfa₂, ?_, rfl⟩⟩
  · rw [hrequired]
    exact hcopies
  · rw [hrequired]
    exact hout

end Bodies

/-! ## What particles add

Each particle of a content model that can be flattened is one block, and its events have their
positions among the letters for ranks. By induction on the particles, in the order of the
construction. -/

section Particles

/-- Events whose ranks are the numbers from `low` on. -/
def Numbered (rank : Event → Nat) (low : Nat) (es : List Event) : Prop :=
  ∀ i e, es[i]? = some e → rank e = low + i

variable {rank : Event → Nat}

theorem Numbered.left {low : Nat} {es fs : List Event} (h : Numbered rank low (es ++ fs)) :
    Numbered rank low es := by
  intro i e he
  refine h i e ?_
  rw [List.getElem?_append_left (List.getElem?_eq_some_iff.mp he).1]
  exact he

theorem Numbered.right {low : Nat} {es fs : List Event} (h : Numbered rank low (es ++ fs)) :
    Numbered rank (low + es.length) fs := by
  intro i e he
  rw [Nat.add_assoc]
  refine h _ e ?_
  rw [List.getElem?_append_right (Nat.le_add_right ..), Nat.add_sub_cancel_left]
  exact he

/-- The events that are not the wildcard, in the order they are declared in. -/
def declared (items : List Particle) : List Event :=
  (items.map Particle.letter).filter (· ≠ .wildcard)

theorem length_letters (items : List Particle) : (letters items).length = items.length := by
  have hsplit := List.length_eq_length_filter_add (l := items.map Particle.letter)
    fun e => decide (e = .wildcard)
  rw [List.length_map] at hsplit
  rw [letters, List.length_append, hsplit, Nat.add_comm]
  simp only [ne_eq, decide_not]

theorem declared_le_letters (items : List Particle) :
    (declared items).length ≤ (letters items).length := by
  rw [letters, List.length_append]
  exact Nat.le_add_right ..

/-- One branch of a choice. -/
theorem builds_branch {p : Particle} {b : Branch} {low high : Nat} (h : p.branch = .ok b)
    (hmin : p.min = 1) (hmax : p.max = 1) (hle : low ≤ high)
    (hrank : p.letter ≠ .wildcard → low ≤ rank p.letter + 1 ∧ rank p.letter < high) :
    Builds rank low high (buildParticle p) := by
  have hone : ∀ {min max : Nat}, min = 1 → max = 1 → Unrolled min max := by
    rintro min max rfl rfl
    exact unrolled_one
  cases p with
  | element e =>
    refine builds_occurs hle (hone hmin hmax) (builds_single ?_ hle hrank) fun hmany => ?_
    · intro h
      cases h
    · exact absurd (hmax ▸ hmany : 1 < 1) (lt_irrefl 1)
  | any min max =>
    refine builds_occurs hle (hone hmin hmax) (builds_single ?_ hle hrank) fun hmany => ?_
    · intro h
      cases h
    · exact absurd (hmax ▸ hmany : 1 < 1) (lt_irrefl 1)
  | sequence items min max => cases h
  | choice items min max => cases h
  | all items min max => cases h

/-- All branches of a choice, from one state to one state. -/
theorem closes_branches {items : List Particle} {branches : List Branch} {low x : Nat}
    (h : List.Forall₂ (fun p b => p.branch = .ok b) items branches)
    (honce : ∀ p ∈ items, p.min = 1 ∧ p.max = 1)
    (hrank : Numbered rank low (declared items)) (nfa : Nfa) (s : Nat)
    (hs : s < nfa.states.length) (hx : x < nfa.states.length)
    (hopen : items ≠ [] ∨ nfa.Leads s x) :
    ∃ nfa', buildBranches items x nfa s = .ok nfa'
      ∧ Extends rank low (low + (declared items).length) nfa nfa' s x := by
  induction h generalizing low nfa with
  | nil =>
    exact ⟨nfa, rfl, .stay hx (hopen.resolve_left fun h => h rfl) (Nat.le_add_right ..)⟩
  | @cons p b ps bs hb hbs ih =>
    obtain ⟨hmin, hmax⟩ := honce p List.mem_cons_self
    -- a wildcard declares no event of its own
    have hdeclared : declared (p :: ps)
        = (if p.letter = .wildcard then [] else [p.letter]) ++ declared ps := by
      unfold declared
      rw [List.map_cons, List.filter_cons]
      by_cases hwild : p.letter = .wildcard <;> simp [hwild]
    rw [hdeclared] at hrank ⊢
    have hbranch : Builds rank low
        (low + (if p.letter = .wildcard then ([] : List Event) else [p.letter]).length)
        (buildParticle p) := by
      refine builds_branch hb hmin hmax (Nat.le_add_right ..) fun hwild => ?_
      have heq : rank p.letter = low := hrank 0 _ (by rw [if_neg hwild]; rfl)
      rw [if_neg hwild, heq]
      exact ⟨Nat.le_succ low, Nat.lt_succ_self low⟩
    obtain ⟨m, nfa₁, heq, hext⟩ := hbranch nfa s hs
    -- the branch is joined to the exit, and the next one starts from the source again
    obtain ⟨hext₁, hleads₁⟩ := hext.epsilon hext.exit (hx.trans_le hext.size)
    have hx₁ : x < (nfa₁.epsilon m x).states.length := hx.trans_le hext₁.size
    have hout := hext₁.onward hx₁ hleads₁
    obtain ⟨nfa₂, hmore, hext₂⟩ := ih (fun q hq => honce q (List.mem_cons_of_mem _ hq)) hrank.right
      (nfa₁.epsilon m x) (hs.trans_le hext₁.size) hx₁ (.inr hout.leads)
    refine ⟨nfa₂, ?_, ?_⟩
    · rw [buildBranches, heq]
      exact hmore
    · rw [List.length_append, ← Nat.add_assoc]
      -- the way on from the source is the same at every stage
      exact
        { exit := hext₂.exit
          size := hout.size.trans hext₂.size
          made := fun h => hext₂.made (hout.made h)
          keeps := fun q a => (hout.keeps q a).trans (hext₂.keeps q a)
          leads := hext₂.leads
          trim := fun q event t ht => by
            rcases hext₂.trim q event t ht with ht | ht
            · exact (hout.trim q event t ht).imp id fun h => h.mono hext₂.keeps
            · exact .inr ht
          ranked := fun hmade h => hext₂.ranked (hout.made hmade) (hout.ranked hmade h) }

/-- One occurrence of a choice, as `buildParticle` makes it. -/
def choiceBody (items : List Particle) : Body := fun nfa source => do
  let (dest, nfa) := nfa.addState
  let nfa ← buildBranches items dest nfa source
  .ok (dest, nfa)

theorem builds_choiceBody {items : List Particle} {low high : Nat}
    (h : ∀ nfa s x, s < nfa.states.length → x < nfa.states.length →
      ∃ nfa', buildBranches items x nfa s = .ok nfa' ∧ Extends rank low high nfa nfa' s x) :
    Builds rank low high (choiceBody items) := by
  intro nfa s hs
  have hgrow := Extends.addState rank low hs
  have hsize : nfa.addState.2.states.length = nfa.states.length + 1 := by
    rw [← graph_size, graph_addState]
    rfl
  obtain ⟨nfa', heq, hext⟩ := h nfa.addState.2 s nfa.states.length hgrow.exit (by omega)
  exact ⟨nfa.states.length, nfa', bind_eq_ok.mpr ⟨nfa', heq, rfl⟩, hgrow.trans hext⟩

/-- A choice of one branch, whose event need not be new. -/
theorem builds_choiceBody_one {p : Particle} {b : Branch} {low high : Nat} (h : p.branch = .ok b)
    (hmin : p.min = 1) (hmax : p.max = 1) (hle : low ≤ high)
    (hrank : p.letter ≠ .wildcard → low ≤ rank p.letter + 1 ∧ rank p.letter < high) :
    Builds rank low high (choiceBody [p]) := by
  refine builds_choiceBody fun nfa s x hs hx => ?_
  obtain ⟨m, nfa₁, heq, hext⟩ := builds_branch h hmin hmax hle hrank nfa s hs
  obtain ⟨hext₁, hleads₁⟩ := hext.epsilon hext.exit (hx.trans_le hext.size)
  refine ⟨nfa₁.epsilon m x, ?_, hext₁.onward (hx.trans_le hext₁.size) hleads₁⟩
  rw [buildBranches, heq]
  rfl

/-- A single event, so many times. -/
theorem builds_letter {event : Event} {min max low : Nat} (hevent : event ≠ .endElement)
    (hbounds : Unrolled min max) (hrank : rank event = low) :
    Builds rank low (low + 1) fun nfa entry => occurs nfa entry min max (single event) := by
  refine builds_occurs (Nat.le_succ low) hbounds
    (builds_single hevent (Nat.le_succ low) fun _ => ?_)
    fun _ => builds_single hevent le_rfl fun _ => ?_
  · omega
  · omega

mutual

/-- A content model that can be flattened is built in the order of its blocks. -/
theorem builds_flatten : ∀ (p : Particle) {items : List Item} {low : Nat}, flatten p = .ok items →
    p.BranchesOnce → (∀ item ∈ items, item.Regular) →
    Numbered rank low (Block.alphabet p.blocks) →
    Builds rank low (low + (Block.alphabet p.blocks).length) (buildParticle p)
  -- an element and a wildcard are one event
  | .element e, _, _, h, _, hregular, hrank => by
      cases h
      exact builds_letter (fun h => by cases h) (hregular _ List.mem_cons_self).unrolled
        (hrank 0 _ rfl)
  | .any min max, _, _, h, _, hregular, hrank => by
      cases h
      exact builds_letter (fun h => by cases h) (hregular _ List.mem_cons_self).unrolled
        (hrank 0 _ rfl)
  -- a sequence that can be flattened occurs once, and is its items one after another
  | .sequence items min max, _, low, h, honce, hregular, hrank => by
      rw [flatten] at h
      split at h
      · cases h
      · next hbounds =>
        obtain ⟨rfl, rfl⟩ : min = 1 ∧ max = 1 := by omega
        exact builds_occurs (Nat.le_add_right ..) unrolled_one
          (builds_flattenAll items h honce hregular hrank) fun hmany => absurd hmany (lt_irrefl 1)
  -- a choice: its branches are made in order, and the letters of the block are in that order
  | .choice items min max, _, low, h, honce, hregular, hrank => by
      obtain ⟨branches, hbranches, hlast⟩ := bind_eq_ok.mp h
      cases hlast
      have hitem : (Item.choice (sortBranches branches) min max).Regular :=
        hregular _ List.mem_cons_self
      have hletters : Block.alphabet (Particle.choice items min max).blocks = letters items :=
        List.append_nil _
      rw [hletters] at hrank ⊢
      have hall := mapM_eq_ok.mp hbranches
      have hlength : (letters items).length = (sortBranches branches).length := by
        have hsame := (matches_sortBranches hbranches).length_eq
        rw [List.length_map] at hsame
        exact hsame.symm
      have hitems : items ≠ [] := by
        rintro rfl
        have hpos : 0 < (sortBranches branches).length := hitem.productions
        rw [← hlength] at hpos
        exact absurd hpos (lt_irrefl 0)
      have hfirst : Numbered rank low (declared items) := Numbered.left hrank
      have hbody : Builds rank low (low + (letters items).length) (choiceBody items) := by
        refine builds_choiceBody fun nfa s x hs hx => ?_
        obtain ⟨nfa', heq, hext⟩ :=
          closes_branches hall honce hfirst nfa s hs hx (.inl hitems)
        exact ⟨nfa', heq, hext.mono le_rfl (Nat.add_le_add_left (declared_le_letters items) low)⟩
      refine builds_occurs (Nat.le_add_right ..) hitem.unrolled hbody fun hmany => ?_
      -- a choice that repeats has one branch, whose event is not new
      have hone : (letters items).length = 1 := by
        rw [hlength]
        exact hitem.single.resolve_left (Nat.not_le.mpr hmany)
      rw [length_letters, List.length_eq_one_iff] at hone
      obtain ⟨p, rfl⟩ := hone
      obtain ⟨hmin, hmax⟩ := honce p List.mem_cons_self
      cases hall with
      | cons hb _ =>
        refine builds_choiceBody_one hb hmin hmax le_rfl fun hdeclared => ?_
        have hrank' : rank p.letter = low := hfirst 0 _ (by simp [declared, hdeclared])
        rw [length_letters, hrank']
        exact ⟨le_rfl, Nat.lt_succ_self low⟩
  -- `xs:all` cannot be flattened
  | .all _ _ _, _, _, h, _, _, _ => by cases h

theorem builds_flattenAll : ∀ (ps : List Particle) {items : List Item} {low : Nat},
    flattenAll ps = .ok items → BranchesOnces ps → (∀ item ∈ items, item.Regular) →
    Numbered rank low (Block.alphabet (blocksOf ps)) →
    Builds rank low (low + (Block.alphabet (blocksOf ps)).length) (buildSequence ps)
  | [], _, _, _, _, _, _ => fun nfa s hs => ⟨s, nfa, rfl, .stay hs .refl (Nat.le_add_right ..)⟩
  | p :: ps, _, low, h, honce, hregular, hrank => by
      obtain ⟨first, hfirst, h⟩ := bind_eq_ok.mp h
      obtain ⟨rest, hrest, hlast⟩ := bind_eq_ok.mp h
      cases hlast
      rw [blocksOf, Block.alphabet_append] at hrank ⊢
      rw [List.length_append, ← Nat.add_assoc]
      intro nfa s hs
      obtain ⟨m, nfa₁, heq, hext⟩ := builds_flatten p hfirst honce.1
        (fun item hitem => hregular item (List.mem_append_left _ hitem)) hrank.left nfa s hs
      obtain ⟨x, nfa₂, hmore, hext'⟩ := builds_flattenAll ps hrest honce.2
        (fun item hitem => hregular item (List.mem_append_right _ hitem)) hrank.right nfa₁ m
        hext.exit
      refine ⟨x, nfa₂, ?_, hext.trans hext'⟩
      rw [buildSequence, heq]
      exact hmore

end

end Particles

end Builder

end Iso15118.Codegen
