import Iso15118.Codegen.Grammar
import Iso15118.Lib.Check
import Iso15118.Lib.Fragment

/-!
# From content models to automata

What the automaton of a content model spells, for any nesting of particles. A particle is built from
a state it shares with its siblings and, where it is the first of a repeated group, with the
occurrences of the group: so the construction is an instance of `Lib.Fragment`, and what it makes
of a particle is given by two languages, **`Particle.shape`**, not by one.

* **`yields_particle`** — building a particle adds a fragment that spells the particle's shape;
* **`spells_buildSequence`** — the automaton of a whole content model.
-/

namespace Iso15118.Codegen

open Lib

/-! ## The graph of an automaton

The automaton of the source is an array of states, each with its edges. As a graph it is what
`Lib.Fragment` is about, and each operation on the array is one on the graph. -/

/-- Where the edges of a state with a label lead. -/
def NfaState.targets (s : NfaState) : Option Event → Set Nat
  | none => {t | t ∈ s.epsilon}
  | some e => {t | ∃ order, (order, e, t) ∈ s.edges}

namespace Nfa

theorem state_of_le {nfa : Nfa} {q : Nat} (h : nfa.states.length ≤ q) : nfa.state q = {} := by
  rw [state, List.getD_eq_getElem?_getD, List.getElem?_eq_none h]
  rfl

def graph (nfa : Nfa) : Lib.Graph Event where
  size := nfa.states.length
  step q := (nfa.state q).targets
  fresh q h a := by
    rw [state_of_le h]
    cases a <;> simp [NfaState.targets]

@[simp] theorem graph_size (nfa : Nfa) : nfa.graph.size = nfa.states.length := rfl

@[simp] theorem addState_fst (nfa : Nfa) : nfa.addState.1 = nfa.states.length := rfl

theorem graph_new_step (q : Nat) (a : Option Event) : Nfa.new.graph.step q a = ∅ := by
  have hstate : Nfa.new.state q = {} := by
    cases q with
    | zero => rfl
    | succ q => exact state_of_le (by simp [Nfa.new])
  show (Nfa.new.state q).targets a = ∅
  rw [hstate]
  cases a <;> simp [NfaState.targets]

/-- The new state has no edges, and all others are as they were. -/
theorem state_addState (nfa : Nfa) (q : Nat) :
    nfa.addState.2.state q
      = if q = nfa.states.length then { content := nfa.inContent } else nfa.state q := by
  rcases Nat.lt_trichotomy q nfa.states.length with hlt | heq | hgt
  · rw [if_neg hlt.ne]
    simp only [state, addState, List.getD_eq_getElem?_getD]
    rw [List.getElem?_append_left hlt]
  · rw [if_pos heq]
    simp [state, addState, heq]
  · rw [if_neg hgt.ne', state_of_le hgt.le]
    refine state_of_le ?_
    show (nfa.states ++ [_]).length ≤ q
    rw [List.length_append, List.length_singleton]
    exact hgt

theorem graph_addState (nfa : Nfa) : nfa.addState.2.graph = nfa.graph.grow := by
  refine Lib.Graph.ext ?_ ?_
  · show (nfa.states ++ [_]).length = nfa.states.length + 1
    rw [List.length_append, List.length_singleton]
  · funext q a
    show (nfa.addState.2.state q).targets a = (nfa.state q).targets a
    rw [state_addState]
    split
    · next heq =>
      rw [state_of_le heq.ge]
      cases a <;> rfl
    · rfl

/-- What a change to one state does to the edges. -/
theorem state_modify {nfa m : Nfa} {f : NfaState → NfaState} {source : Nat}
    (hsource : source < nfa.states.length) (h : m.states = nfa.states.modify source f) (q : Nat) :
    m.state q = if q = source then f (nfa.state q) else nfa.state q := by
  simp only [state, h, List.getD_eq_getElem?_getD, List.getElem?_modify]
  by_cases hq : q = source
  · subst hq
    rw [List.getElem?_eq_getElem hsource]
    simp
  · simp [hq, Ne.symm hq]

theorem graph_edge {nfa : Nfa} {source dest : Nat} {e : Event}
    (h : source < nfa.graph.size) :
    (nfa.edge source e dest).graph = nfa.graph.connect source (some e) dest h := by
  refine Lib.Graph.ext ?_ ?_
  · exact List.length_modify ..
  · funext q a
    ext t
    have hstate := state_modify (m := nfa.edge source e dest) h rfl q
    show t ∈ ((nfa.edge source e dest).state q).targets a ↔
      t ∈ (nfa.state q).targets a ∨ (q = source ∧ a = some e ∧ t = dest)
    rw [hstate]
    by_cases hq : q = source
    · subst hq
      cases a with
      | none => simp [NfaState.targets]
      | some e' => simp [NfaState.targets, exists_or, eq_comm]
    · simp [hq]

theorem graph_epsilon {nfa : Nfa} {source dest : Nat} (h : source < nfa.graph.size) :
    (nfa.epsilon source dest).graph = nfa.graph.connect source none dest h := by
  refine Lib.Graph.ext ?_ ?_
  · exact List.length_modify ..
  · funext q a
    ext t
    have hstate := state_modify (m := nfa.epsilon source dest) h rfl q
    show t ∈ ((nfa.epsilon source dest).state q).targets a ↔
      t ∈ (nfa.state q).targets a ∨ (q = source ∧ a = none ∧ t = dest)
    rw [hstate]
    by_cases hq : q = source
    · subst hq
      cases a with
      | none => simp [NfaState.targets]
      | some e' => simp [NfaState.targets]
    · simp [hq]

end Nfa

theorem Builder.graph_enterContent {nfa : Nfa} {cursor : Nat} (h : cursor < nfa.states.length) :
    (enterContent nfa cursor).graph = nfa.graph := by
  refine Lib.Graph.ext ?_ ?_
  · exact List.length_modify ..
  · funext q a
    show ((enterContent nfa cursor).state q).targets a = (nfa.state q).targets a
    have hstate := Nfa.state_modify (m := enterContent nfa cursor) h rfl q
    rw [hstate]
    by_cases hq : q = cursor
    · rw [if_pos hq]
      cases a <;> rfl
    · rw [if_neg hq]

/-! ## What is made of a particle

The two languages of a particle follow the cases of `buildParticle`. A body yields its shape
wherever it is built; a repetition is first taken apart into its mandatory occurrences and what
follows them. -/

/-- `Builder::repeat` on the two languages of the body. -/
def occursShape (l : Loop Event) (min max : Nat) : Loop Event :=
  let required := Nat.min min maxUnroll
  l.times (if max = unbounded ∨ maxUnroll < max then l.round else l.upTo (max - required)) required

mutual

/-- The words that lead a particle back to the state it starts from, and those that leave it. -/
def Particle.shape : Particle → Loop Event
  | .element e => occursShape (.edge (some e.event)) e.min e.max
  | .any min max => occursShape (.edge (some .wildcard)) min max
  | .sequence items min max => occursShape (sequenceShape items) min max
  | .choice items min max => occursShape (choiceShape items) min max
  | .all _ _ _ => .edge none

def sequenceShape : List Particle → Loop Event
  | [] => .edge none
  | item :: items => item.shape.seq (sequenceShape items)

def choiceShape : List Particle → Loop Event
  | [] => .none
  | item :: items => item.shape.alt (choiceShape items)

end

mutual

/-- No `xs:all`, at any depth. -/
def Particle.NoAll : Particle → Prop
  | .element _ | .any _ _ => True
  | .sequence items _ _ | .choice items _ _ => NoAlls items
  | .all _ _ _ => False

def NoAlls : List Particle → Prop
  | [] => True
  | item :: items => item.NoAll ∧ NoAlls items

end

namespace Builder

/-- No edge of an automaton is labelled with the end of the element. -/
def Labels (e : Event) : Prop := e ≠ .endElement

/-- What a body adds is a fragment of this shape, wherever it is built. -/
def Yields (body : Body) (l : Loop Event) : Prop :=
  ∀ nfa s x nfa', s < nfa.states.length → body nfa s = .ok (x, nfa') →
    nfa.states.length ≤ x ∧ ∃ A, Fragment Labels A nfa.graph nfa'.graph s x l

/-- The same with the exit given. -/
def Reaches (x : Nat) (build : Nfa → Nat → Except GrammarError Nfa) (l : Loop Event) : Prop :=
  ∀ nfa s nfa', s < nfa.states.length → x < nfa.states.length → x ≠ s →
    build nfa s = .ok nfa' → ∃ A, Fragment Labels A nfa.graph nfa'.graph s x l

theorem yields_single {e : Event} (he : Labels e) : Yields (single e) (.edge (some e)) := by
  intro nfa s x nfa' hs h
  have hpair : (nfa.states.length, nfa.addState.2.edge s e nfa.states.length) = (x, nfa') :=
    Except.ok.inj h
  obtain ⟨rfl, rfl⟩ := Prod.mk.inj hpair
  refine ⟨le_rfl, {(some e, nfa.states.length)}, ?_⟩
  have hsize : s < nfa.addState.2.graph.size := by
    rw [Nfa.graph_addState]
    exact Nat.lt_succ_of_lt hs
  rw [Nfa.graph_edge hsize]
  simp only [Nfa.graph_addState]
  refine Fragment.allocate ?_ hs
  exact Fragment.edge (some e) (Nat.lt_succ_of_lt hs) (Nat.lt_succ_self _) (Nat.ne_of_gt hs)
    (by simpa using he)

section Occurrences

variable {body : Body} {l : Loop Event} {x : Nat}

theorem Yields.times (hb : Yields body l) {rest : Nfa → Nat → Except GrammarError Nfa}
    {m : Loop Event} (hrest : Reaches x rest m) (n : Nat) :
    Reaches x (fun nfa s => mandatory body n nfa s >>= fun r => rest r.2 r.1) (l.times m n) := by
  induction n with
  | zero => exact hrest
  | succ n ih =>
      intro nfa s nfa' hs hx hxs h
      obtain ⟨⟨cur, nfa₂⟩, hall, hlast⟩ := bind_eq_ok.mp h
      obtain ⟨⟨m₁, nfa₁⟩, hfirst, hmore⟩ := bind_eq_ok.mp hall
      obtain ⟨hm, A, F⟩ := hb nfa s m₁ nfa₁ hs hfirst
      have hgrows : nfa.states.length ≤ nfa₁.states.length := F.grows
      have hagain : mandatory body n nfa₁ m₁ = .ok (cur, nfa₂) := hmore
      obtain ⟨A', F'⟩ := ih nfa₁ m₁ nfa' F.exit (hx.trans_le hgrows) (by omega) (by
        show (mandatory body n nfa₁ m₁ >>= fun r => rest r.2 r.1) = .ok nfa'
        rw [hagain]
        exact hlast)
      exact ⟨A, F.seq F' hm (Or.inl hx) hxs⟩

theorem reaches_stop :
    Reaches x (fun nfa s => .ok (nfa.epsilon s x)) (.edge none) := by
  intro nfa s nfa' hs hx hxs h
  cases h
  rw [Nfa.graph_epsilon hs]
  exact ⟨_, Fragment.edge none hs hx hxs (by simp)⟩

theorem Yields.upTo (hb : Yields body l) (n : Nat) :
    Reaches x (fun nfa s => optional body x n (nfa.epsilon s x) s) (l.upTo n) := by
  induction n with
  | zero => exact reaches_stop
  | succ n ih =>
      intro nfa s nfa' hs hx hxs h
      obtain ⟨⟨m, nfa₁⟩, hfirst, hmore⟩ := bind_eq_ok.mp h
      have hgraph : (nfa.epsilon s x).graph = nfa.graph.connect s none x hs := Nfa.graph_epsilon hs
      have hsize : (nfa.epsilon s x).states.length = nfa.states.length := List.length_modify ..
      obtain ⟨hm, A, F⟩ := hb (nfa.epsilon s x) s m nfa₁ (by rwa [hsize]) hfirst
      have hgrows : (nfa.epsilon s x).states.length ≤ nfa₁.states.length := F.grows
      obtain ⟨A', F'⟩ := ih nfa₁ m nfa' F.exit (by omega) (by omega) hmore
      have hboth := F.seq F' hm (Or.inl (by rw [Nfa.graph_size, hsize]; exact hx)) hxs
      rw [hgraph] at hboth
      exact ⟨_, hboth.skip hx⟩

/-- What follows the required copies is a loop where the bound is too large to unroll, and optional
copies otherwise. -/
theorem Yields.tail (hb : Yields body l) (min max : Nat) :
    Reaches x (Builder.tail body x min max)
      (if max = unbounded ∨ maxUnroll < max then l.round else l.upTo (max - min)) := by
  intro nfa s nfa' hs hx hxs h
  unfold Builder.tail at h
  split at h
  · rename_i hloop
    rw [if_pos hloop]
    obtain ⟨⟨m, nfa₁⟩, hbody, hlast⟩ := bind_eq_ok.mp h
    obtain ⟨hm, A, F⟩ := hb nfa s m nfa₁ hs hbody
    have hmlt : m < nfa₁.graph.size := F.exit
    have hgraph : (nfa₁.epsilon m s).graph = nfa₁.graph.connect m none s hmlt :=
      Nfa.graph_epsilon hmlt
    have hslt : s < (nfa₁.epsilon m s).graph.size := by
      rw [hgraph]
      exact hs.trans_le F.grows
    cases hlast
    rw [Nfa.graph_epsilon hslt]
    simp only [hgraph]
    exact ⟨_, F.round hm hx hxs⟩
  · rename_i hbounded
    rw [if_neg hbounded]
    exact hb.upTo (max - min) nfa s nfa' hs hx hxs h

/-- `Builder::repeat` around a body that adds a fragment. -/
theorem yields_occurs (hb : Yields body l) (min max : Nat) :
    Yields (fun nfa entry => occurs nfa entry min max body) (occursShape l min max) := by
  intro nfa s x nfa' hs h
  have hsize : nfa.addState.2.states.length = nfa.states.length + 1 := by
    rw [← Nfa.graph_size, Nfa.graph_addState]
    rfl
  obtain ⟨⟨cur, nfa₁⟩, hmandatory, hrest⟩ := bind_eq_ok.mp h
  obtain ⟨nfa₂, htail, hlast⟩ := bind_eq_ok.mp hrest
  cases hlast
  refine ⟨le_rfl, ?_⟩
  have hcopies : mandatory body (Nat.min min maxUnroll) nfa.addState.2 s = .ok (cur, nfa₁) :=
    hmandatory
  obtain ⟨A, F⟩ := hb.times (hb.tail (Nat.min min maxUnroll) max) (Nat.min min maxUnroll)
    nfa.addState.2 s nfa' (by omega) (by omega) (Nat.ne_of_gt hs) (by
      show (mandatory body (Nat.min min maxUnroll) nfa.addState.2 s >>= fun r =>
        Builder.tail body nfa.addState.1 (Nat.min min maxUnroll) max r.2 r.1) = .ok nfa'
      rw [hcopies]
      exact htail)
  rw [Nfa.graph_addState] at F
  exact ⟨A, F.allocate hs⟩

end Occurrences

/-! A group without items adds nothing, and its exit is its entry. -/

/-- Back or out without a word. -/
def Still (l : Loop Event) : Prop := l.back ≤ 1 ∧ l.out = 1

theorem Still.whole {l : Loop Event} (h : Still l) : l.whole = 1 := by
  rw [Loop.whole_eq_out h.1, h.2]

theorem still_stop : Still (.edge none) := ⟨bot_le, rfl⟩

theorem Still.times {l m : Loop Event} (hl : Still l) (hm : Still m) (n : Nat) :
    Still (l.times m n) := by
  induction n with
  | zero => exact hm
  | succ n ih =>
      refine ⟨hl.1, ?_⟩
      show l.out * (l.times m n).whole = 1
      rw [hl.2, ih.whole, one_mul]

theorem Still.skip {l : Loop Event} (hl : Still l) : Still l.skip := by
  refine ⟨hl.1, ?_⟩
  show 1 + l.out = 1
  rw [hl.2, add_idem]

theorem Still.seq {l m : Loop Event} (hl : Still l) (hm : Still m) : Still (l.seq m) := by
  refine ⟨hl.1, ?_⟩
  show l.out * m.whole = 1
  rw [hl.2, hm.whole, one_mul]

theorem Still.upTo {l : Loop Event} (hl : Still l) (n : Nat) : Still (l.upTo n) := by
  induction n with
  | zero => exact still_stop
  | succ n ih => exact (hl.seq ih).skip

theorem still_occursShape {l : Loop Event} (hl : Still l) (min max : Nat) :
    Still (occursShape l min max) := by
  refine hl.times ?_ _
  split
  · exact ⟨add_le hl.1 hl.2.le, rfl⟩
  · exact hl.upTo _

/-- Which of the shapes that say nothing is taken makes no difference. -/
theorem Still.fragment {l m : Loop Event} (hl : Still l) (hm : Still m)
    {A : Set (Option Event × Nat)} {G₀ G₁ : Lib.Graph Event} {s x : Nat}
    (F : Fragment Labels A G₀ G₁ s x l) : Fragment Labels A G₀ G₁ s x m := by
  have hone : ∀ k : Loop Event, Still k → 1 + k.back = 1 := by
    intro k hk
    exact le_antisymm (add_le le_rfl hk.1) le_self_add
  exact F.relax ((hone m hm).trans (hone l hl).symm) (hm.2.trans hl.2.symm)

theorem mandatory_nothing (n : Nat) (nfa : Nfa) (s : Nat) :
    mandatory (buildSequence []) n nfa s = .ok (s, nfa) := by
  induction n with
  | zero => rfl
  | succ n ih => exact ih

theorem reaches_optional_nothing (x n : Nat) :
    Reaches x (fun nfa s => optional (buildSequence []) x n (nfa.epsilon s x) s)
      ((Loop.edge none).upTo n) := by
  induction n with
  | zero => exact reaches_stop
  | succ n ih =>
      intro nfa s nfa' hs hx hxs h
      have hgraph : (nfa.epsilon s x).graph = nfa.graph.connect s none x hs := Nfa.graph_epsilon hs
      have hsize : (nfa.epsilon s x).states.length = nfa.states.length := List.length_modify ..
      obtain ⟨A, F⟩ := ih (nfa.epsilon s x) s nfa' (by rwa [hsize]) (by rwa [hsize]) hxs h
      rw [hgraph] at F
      have hstill := still_stop.upTo n
      exact ⟨_, hstill.skip.fragment (still_stop.upTo (n + 1)) (F.skip hx)⟩

/-- The same behind copies of nothing, where all states but the exit are one. -/
theorem reaches_tail_nothing (x min max : Nat) :
    Reaches x (Builder.tail (buildSequence []) x min max)
      (if max = unbounded ∨ maxUnroll < max then Loop.round (.edge none)
        else (Loop.edge none).upTo (max - min)) := by
  intro nfa s nfa' hs hx hxs h
  unfold Builder.tail at h
  split at h
  · rename_i hloop
    rw [if_pos hloop]
    have hgraph : (nfa.epsilon s s).graph = nfa.graph.connect s none s hs := Nfa.graph_epsilon hs
    have hslt : s < (nfa.epsilon s s).graph.size := by
      rw [hgraph]
      exact hs
    cases h
    rw [Nfa.graph_epsilon hslt]
    simp only [hgraph]
    have F : Fragment Labels {(none, x)} (nfa.graph.connect s none s hs)
        ((nfa.graph.connect s none s hs).connect s none x hs) s x (.edge none) :=
      Fragment.edge none hs hx hxs (by simp)
    exact ⟨_, still_stop.fragment ⟨add_le bot_le le_rfl, rfl⟩ F.stay⟩
  · rename_i hbounded
    rw [if_neg hbounded]
    exact reaches_optional_nothing x (max - min) nfa s nfa' hs hx hxs h

/-- Any number of occurrences of nothing is nothing, with the edges it is made of. -/
theorem yields_occurs_nothing (min max : Nat) :
    Yields (fun nfa entry => occurs nfa entry min max (buildSequence []))
      (occursShape (.edge none) min max) := by
  intro nfa s x nfa' hs h
  have hsize : nfa.addState.2.states.length = nfa.states.length + 1 := by
    rw [← Nfa.graph_size, Nfa.graph_addState]
    rfl
  obtain ⟨⟨cur, nfa₁⟩, hmandatory, hrest⟩ := bind_eq_ok.mp h
  obtain ⟨nfa₂, htail, hlast⟩ := bind_eq_ok.mp hrest
  rw [mandatory_nothing] at hmandatory
  cases hmandatory
  cases hlast
  refine ⟨le_rfl, ?_⟩
  obtain ⟨A, F⟩ := reaches_tail_nothing nfa.addState.1 (Nat.min min maxUnroll) max nfa.addState.2 s
    nfa' (by omega) (by rw [Nfa.addState_fst]; omega) (Nat.ne_of_gt hs) htail
  rw [Nfa.graph_addState] at F
  refine ⟨A, Fragment.allocate (Still.fragment ?_ ?_ F) hs⟩
  · split
    · exact ⟨add_le bot_le le_rfl, rfl⟩
    · exact still_stop.upTo _
  · exact still_occursShape still_stop min max

mutual

/-- Building a particle adds a fragment that spells its shape. -/
theorem yields_particle : ∀ (p : Particle), p.NoAll → Yields (buildParticle p) p.shape
  | .element e, _ => by
      have hlabel : Labels e.event := by
        intro h
        cases h
      exact yields_occurs (yields_single hlabel) e.min e.max
  | .any min max, _ => by
      have hlabel : Labels .wildcard := by
        intro h
        cases h
      exact yields_occurs (yields_single hlabel) min max
  | .sequence [] min max, _ => yields_occurs_nothing min max
  -- the items one after another, each from where the one before it ends
  | .sequence (item :: items) min max, h => by
      refine yields_occurs ?_ min max
      intro nfa s x nfa' hs hbuild
      obtain ⟨⟨m, nfa₁⟩, hfirst, hmore⟩ := bind_eq_ok.mp hbuild
      obtain ⟨hm, A, F⟩ := yields_particle item h.1 nfa s m nfa₁ hs hfirst
      have hchain := chain_sequence items h.2 nfa₁ m x nfa' F.exit hmore
      obtain ⟨hx, F'⟩ := hchain.cons F hm
      exact ⟨hx, A, F'⟩
  -- every branch from the entry, to one exit that they share
  | .choice items min max, h => by
      refine yields_occurs ?_ min max
      intro nfa s x nfa' hs hbuild
      obtain ⟨nfa₁, hbranches, hlast⟩ := bind_eq_ok.mp hbuild
      cases hlast
      have hsize : nfa.addState.2.states.length = nfa.states.length + 1 := by
        rw [← Nfa.graph_size, Nfa.graph_addState]
        rfl
      obtain ⟨A, F⟩ := reaches_branches items h nfa.states.length nfa.addState.2 s nfa'
        (by omega) (by omega) (Nat.ne_of_gt hs) hbranches
      rw [Nfa.graph_addState] at F
      exact ⟨le_rfl, A, F.allocate hs⟩

theorem chain_sequence : ∀ (items : List Particle), NoAlls items → ∀ nfa s x nfa',
    s < nfa.states.length → buildSequence items nfa s = .ok (x, nfa') →
    Chain Labels nfa.graph nfa'.graph s x (sequenceShape items)
  | [], _ => by
      intro nfa s x nfa' hs h
      cases h
      exact Chain.empty
  | item :: items, hall => by
      intro nfa s x nfa' hs h
      obtain ⟨⟨m, nfa₁⟩, hfirst, hmore⟩ := bind_eq_ok.mp h
      obtain ⟨hm, A, F⟩ := yields_particle item hall.1 nfa s m nfa₁ hs hfirst
      have hchain := chain_sequence items hall.2 nfa₁ m x nfa' F.exit hmore
      obtain ⟨hx, F'⟩ := hchain.cons F hm
      exact Or.inr ⟨hx, A, F'⟩

theorem reaches_branches : ∀ (items : List Particle), NoAlls items → ∀ x,
    Reaches x (buildBranches items x) (choiceShape items)
  | [], _ => by
      intro x nfa s nfa' hs hx hxs h
      cases h
      exact ⟨∅, Fragment.none hs hx hxs⟩
  | item :: items, hall => by
      intro x nfa s nfa' hs hx hxs h
      obtain ⟨⟨m, nfa₁⟩, hfirst, hmore⟩ := bind_eq_ok.mp h
      obtain ⟨hm, A, F⟩ := yields_particle item hall.1 nfa s m nfa₁ hs hfirst
      have hmlt : m < nfa₁.graph.size := F.exit
      have hgrows : nfa.states.length ≤ nfa₁.states.length := F.grows
      have hxlt : x < nfa₁.states.length := hx.trans_le hgrows
      have hgraph : (nfa₁.epsilon m x).graph = nfa₁.graph.connect m none x hmlt :=
        Nfa.graph_epsilon hmlt
      have hsize : (nfa₁.epsilon m x).states.length = nfa₁.states.length := List.length_modify ..
      obtain ⟨A', F'⟩ := reaches_branches items hall.2 x (nfa₁.epsilon m x) s nfa'
        (by omega) (by omega) hxs hmore
      -- the branch, and on from its exit to the exit of the choice
      have hbranch : Fragment Labels A nfa.graph (nfa₁.epsilon m x).graph s x item.shape := by
        have hon : Fragment Labels {(none, x)} nfa₁.graph (nfa₁.graph.connect m none x hmlt) m x
            (.edge none) := Fragment.edge none hmlt hxlt (by omega) (by simp)
        have hboth := F.seq hon hm (Or.inl hx) hxs
        rw [Loop.seq_edge_none, ← hgraph] at hboth
        exact hboth
      exact ⟨_, hbranch.alt F' hx⟩

end

/-! ## The automaton of a type

The attributes are a chain of pieces, each of which may be passed over, and the content is a
chain behind it. What the whole spells is what the two shapes do, one after the other. -/

/-- The event of an attribute. -/
def attributeEvent (a : Attribute) : Event := .attribute a.name a.typeRef

def attributeShape (a : Attribute) : Loop Event :=
  if a.required then .edge (some (attributeEvent a)) else (Loop.edge (some (attributeEvent a))).skip

/-- The attributes, and then what follows. -/
def prefixShape (attributes : List Attribute) (l : Loop Event) : Loop Event :=
  attributes.foldr (fun a l => (attributeShape a).seq l) l

/-- One attribute adds one edge, and if it is optional an edge that passes it over. -/
theorem fragment_attribute (a : Attribute) {nfa nfa' : Nfa} {s : Nat} (hs : s < nfa.states.length)
    (h : nfa' =
      if a.required then nfa.addState.2.edge s (attributeEvent a) nfa.states.length
      else (nfa.addState.2.edge s (attributeEvent a) nfa.states.length).epsilon s
        nfa.states.length) :
    ∃ A, Fragment Labels A nfa.graph nfa'.graph s nfa.states.length (attributeShape a) := by
  have hgrow : s < nfa.addState.2.graph.size := by
    rw [Nfa.graph_addState]
    exact Nat.lt_succ_of_lt hs
  have hlabel : ∀ e ∈ some (attributeEvent a), Labels e := by
    intro e he
    obtain rfl : attributeEvent a = e := by simpa using he
    exact fun h => by cases h
  have hedge : (nfa.addState.2.edge s (attributeEvent a) nfa.states.length).graph
      = nfa.addState.2.graph.connect s (some (attributeEvent a)) nfa.states.length hgrow :=
    Nfa.graph_edge hgrow
  simp only [Nfa.graph_addState] at hedge
  -- a required attribute is one edge
  by_cases hreq : a.required
  · rw [if_pos hreq] at h
    rw [h, hedge, attributeShape, if_pos hreq]
    exact ⟨_, Fragment.allocate (Fragment.edge _ (Nat.lt_succ_of_lt hs) (Nat.lt_succ_self _)
      (Nat.ne_of_gt hs) hlabel) hs⟩
  -- an optional one may be passed over by an epsilon edge beside it
  · rw [if_neg hreq] at h
    have hpast : s < (nfa.addState.2.edge s (attributeEvent a) nfa.states.length).graph.size := by
      rw [hedge]
      exact Nat.lt_succ_of_lt hs
    rw [h, Nfa.graph_epsilon hpast, attributeShape, if_neg hreq]
    simp only [hedge]
    rw [Lib.Graph.connect_comm]
    have F : Fragment Labels {(some (attributeEvent a), nfa.states.length)}
        (nfa.graph.grow.connect s none nfa.states.length (Nat.lt_succ_of_lt hs))
        ((nfa.graph.grow.connect s none nfa.states.length (Nat.lt_succ_of_lt hs)).connect s
          (some (attributeEvent a)) nfa.states.length (Nat.lt_succ_of_lt hs)) s nfa.states.length
        (.edge (some (attributeEvent a))) :=
      Fragment.edge _ (Nat.lt_succ_of_lt hs) (Nat.lt_succ_self _) (Nat.ne_of_gt hs) hlabel
    exact ⟨_, Fragment.allocate (F.skip (Nat.lt_succ_self _)) hs⟩

theorem chain_attributes (attributes : List Attribute) {nfa : Nfa} {s : Nat}
    (hs : s < nfa.states.length) :
    (addAttributes attributes nfa s).1 < (addAttributes attributes nfa s).2.states.length ∧
      ∀ {G : Lib.Graph Event} {x : Nat} {l : Loop Event},
        Chain Labels (addAttributes attributes nfa s).2.graph G
          (addAttributes attributes nfa s).1 x l →
        Chain Labels nfa.graph G s x (prefixShape attributes l) := by
  induction attributes generalizing nfa s with
  | nil => exact ⟨hs, fun h => h⟩
  | cons a rest ih =>
      obtain ⟨A, F⟩ := fragment_attribute a hs rfl
      obtain ⟨hlt, hrest⟩ := ih F.exit
      refine ⟨hlt, fun h => ?_⟩
      obtain ⟨hx, F'⟩ := (hrest h).cons F le_rfl
      exact Or.inr ⟨hx, A, F'⟩

/-- What content a type has: its character data or its particles. -/
def HasShape (schema : Schema) (ct : ComplexType) (l : Loop Event) : Prop :=
  match ct.simpleContent with
  | some simple => l = .edge (some (.characters (.named simple)))
  | none => ∃ particles, effectiveParticles schema derivationLevels ct = .ok particles ∧
      l = sequenceShape particles

theorem chain_content {schema : Schema} {ct : ComplexType} {nfa nfa' : Nfa} {s x : Nat}
    (hall : ct.simpleContent = none → ∀ particles,
      effectiveParticles schema derivationLevels ct = .ok particles → NoAlls particles)
    (hs : s < nfa.states.length) (h : buildContent schema ct nfa s = .ok (x, nfa')) :
    ∃ l, HasShape schema ct l ∧ Chain Labels nfa.graph nfa'.graph s x l := by
  unfold buildContent at h
  unfold HasShape
  cases hsimple : ct.simpleContent with
  | some simple =>
      rw [hsimple] at h
      have hlabel : Labels (.characters (.named simple)) := by
        intro h
        cases h
      obtain ⟨hx, A, F⟩ := yields_single hlabel nfa s x nfa' hs h
      exact ⟨_, rfl, Or.inr ⟨hx, A, F⟩⟩
  | none =>
      rw [hsimple] at h
      obtain ⟨particles, hparticles, hbuild⟩ := bind_eq_ok.mp h
      refine ⟨_, ⟨particles, hparticles, rfl⟩, ?_⟩
      exact chain_sequence particles (hall hsimple particles hparticles) nfa s x nfa' hs hbuild

/-- The automaton a grammar is made from spells what the attributes and the content of the type
do, and no word more than their shapes allow. -/
theorem spells_automaton {schema : Schema} {ct : ComplexType} {g : Grammar}
    (hall : ct.simpleContent = none → ∀ particles,
      effectiveParticles schema derivationLevels ct = .ok particles → NoAlls particles)
    (h : complexType schema ct = .ok g) :
    ∃ attributes l nfa accept, collectAttributes schema derivationLevels ct = .ok attributes ∧
      HasShape schema ct l ∧ g = determinise nfa 0 accept ct.mixed ∧ 0 < nfa.states.length ∧
      nfa.graph.Closed Labels ∧ ∀ (N : εNFA Event Nat), N.step = nfa.graph.step → ∀ w,
        Spells N 0 w accept ↔ w ∈ (prefixShape attributes l).whole := by
  obtain ⟨attributes, hattributes, hrest⟩ := bind_eq_ok.mp h
  obtain ⟨⟨accept, nfa⟩, hcontent, hlast⟩ := bind_eq_ok.mp hrest
  cases hlast
  have hnew : 0 < Nfa.new.states.length := Nat.zero_lt_one
  obtain ⟨hlt, hbefore⟩ := chain_attributes attributes hnew
  obtain ⟨l, hshape, hchain⟩ := chain_content hall
    (by
      show (addAttributes attributes .new 0).1 < (List.modify _ _ _).length
      rwa [List.length_modify])
    hcontent
  rw [graph_enterContent hlt] at hchain
  have hwhole := hbefore hchain
  have hclosed : Nfa.new.graph.Closed Labels := by
    intro q a t ht
    rw [Nfa.graph_new_step] at ht
    exact absurd ht (Set.notMem_empty t)
  have hgrows : Nfa.new.states.length ≤ nfa.states.length := hwhole.grows
  exact ⟨attributes, l, nfa, accept, hattributes, hshape, rfl, hnew.trans_le hgrows,
    hwhole.closed hclosed, fun N hN => hwhole.spells_iff (Nfa.graph_new_step 0) hN⟩

end Builder

end Iso15118.Codegen
