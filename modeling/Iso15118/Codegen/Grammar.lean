import Mathlib.Data.Finset.Basic
import Mathlib.Data.List.Sort
import Iso15118.Codegen.Xsd
import Iso15118.Exi.Primitives

/-!
# Grammars

The grammar of a complex type is derived from its content model in two steps. The content model is
compiled to an automaton with edges that spell nothing (`Builder.complexType`, up to its last line);
the automaton is then made deterministic, a state of the grammar for each set of states that are
reached together (`determinise`). What a state offers is ordered as the schema declares it, since
the position of a production is its event code.
-/

namespace Iso15118.Codegen

/-- `MAX_UNROLL`: how far a bounded repetition is unrolled. -/
def maxUnroll : Nat := 4096

/-- `Event`. -/
inductive Event where
  | startElement (name : QName) (typeRef : TypeRef) (nillable : Bool)
  | attribute (name : QName) (typeRef : TypeRef)
  | characters (typeRef : TypeRef)
  | charactersGeneric
  | wildcard
  | endElement
  deriving DecidableEq, Repr

/-- `Production`. -/
structure Production where
  event : Event
  target : Nat
  deriving DecidableEq, Repr

/-- `State`: the productions in the order of their event codes. -/
structure State where
  productions : List Production := []
  deriving DecidableEq, Repr

/-- `State::event_width`. -/
def State.eventWidth (s : State) : Nat := Exi.bitWidth (s.productions.length + 1)

/-- `Grammar`. State 0 is the start. -/
structure Grammar where
  states : List State
  deriving DecidableEq, Repr

/-- `grammar::Error`. -/
inductive GrammarError where
  | unsupported (what : String)
  | cyclicDerivation
  deriving DecidableEq, Repr

/-! ## The automaton

States are added at the end and never taken away. Edges that spell something have a number,
counted over the whole automaton. -/

/-- `NfaState`: the edges `(document order, event, target)`, and those that spell nothing. -/
structure NfaState where
  edges : List (Nat × Event × Nat) := []
  epsilon : List Nat := []
  content : Bool := false
  deriving DecidableEq, Repr

/-- `Nfa`. -/
structure Nfa where
  states : List NfaState
  order : Nat
  inContent : Bool
  deriving DecidableEq, Repr

namespace Nfa

/-- `Nfa::new`. -/
def new : Nfa := ⟨[{}], 0, false⟩

/-- `Nfa::add_state`. -/
def addState (nfa : Nfa) : Nat × Nfa :=
  (nfa.states.length, { nfa with states := nfa.states ++ [{ content := nfa.inContent }] })

/-- `Nfa::edge`. -/
def edge (nfa : Nfa) (source : Nat) (event : Event) (dest : Nat) : Nfa :=
  { nfa with
    order := nfa.order + 1
    states := nfa.states.modify source fun s =>
      { s with edges := s.edges ++ [(nfa.order, event, dest)] } }

/-- `Nfa::epsilon`. -/
def epsilon (nfa : Nfa) (source dest : Nat) : Nfa :=
  { nfa with
    states := nfa.states.modify source fun s => { s with epsilon := s.epsilon ++ [dest] } }

/-- `nfa.states[q]`. -/
def state (nfa : Nfa) (q : Nat) : NfaState := nfa.states.getD q {}

/-- The members of a set of states, in the order a `BTreeSet` is iterated in. -/
def ascending (nfa : Nfa) (set : Finset Nat) : List Nat :=
  (List.range nfa.states.length).filter (· ∈ set)

/-- The body of the inner loop of `Nfa::closure`. -/
def reach : List Nat → Finset Nat → List Nat → Finset Nat × List Nat
  | [], out, stack => (out, stack)
  | next :: rest, out, stack =>
      if next ∈ out then reach rest out stack
      else reach rest (insert next out) (next :: stack)

/-- The loop of `Nfa::closure`, the top of the stack first. -/
def closureLoop (nfa : Nfa) : Nat → Finset Nat → List Nat → Finset Nat
  | 0, out, _ => out
  | _ + 1, out, [] => out
  | fuel + 1, out, s :: stack =>
      let found := reach (nfa.state s).epsilon out stack
      closureLoop nfa fuel found.1 found.2

/-- `Nfa::closure`. A state is pushed once at most, when it is found, so the loop takes no more
turns than there are states. -/
def closure (nfa : Nfa) (states : Finset Nat) : Finset Nat :=
  nfa.closureLoop nfa.states.length states (nfa.ascending states).reverse

end Nfa

/-! ## From content models to automata

Every function takes the state to go on from and returns the one it has come to. Repetition is a
loop over its body, and goes back to its entry where occurrences have no limit. -/

namespace Builder

/-- What compiles one occurrence of something: from a state to the state it continues from. -/
abbrev Body := Nfa → Nat → Except GrammarError (Nat × Nfa)

/-- The first loop of `Builder::repeat`: the mandatory occurrences. -/
def mandatory (body : Body) : Nat → Body
  | 0, nfa, cur => .ok (cur, nfa)
  | n + 1, nfa, cur => do
      let (cur, nfa) ← body nfa cur
      mandatory body n nfa cur

/-- The second loop: the occurrences after which one may stop. -/
def optional (body : Body) (exit : Nat) : Nat → Nfa → Nat → Except GrammarError Nfa
  | 0, nfa, _ => .ok nfa
  | n + 1, nfa, cur => do
      let (cur, nfa) ← body nfa cur
      optional body exit n (nfa.epsilon cur exit) cur

/-- What follows the mandatory occurrences. -/
def tail (body : Body) (exit min max : Nat) (nfa : Nfa) (cur : Nat) : Except GrammarError Nfa :=
  if max = unbounded ∨ maxUnroll < max then do
    let (loopExit, nfa) ← body nfa cur
    .ok ((nfa.epsilon loopExit cur).epsilon cur exit)
  else
    optional body exit (max - min) (nfa.epsilon cur exit) cur

/-- `Builder::repeat`. The source goes on after an error and reports the first there was; it is the
same to stop there. -/
def occurs (nfa : Nfa) (entry min max : Nat) (body : Body) : Except GrammarError (Nat × Nfa) := do
  let (exit, nfa) := nfa.addState
  let required := Nat.min min maxUnroll
  let (cur, nfa) ← mandatory body required nfa entry
  let nfa ← tail body exit required max nfa cur
  .ok (exit, nfa)

/-- The body of an element or a wildcard: one edge to a new state. -/
def single (event : Event) : Body := fun nfa source =>
  let (dest, nfa) := nfa.addState
  .ok (dest, nfa.edge source event dest)

end Builder

/-- The event of an element's start. -/
def ElementParticle.event (e : ElementParticle) : Event :=
  .startElement e.name e.typeRef e.nillable

namespace Builder

mutual

/-- `Builder::build_particle`, with `build_group_repeated`. -/
def buildParticle : Particle → Body
  | .element e, nfa, entry => occurs nfa entry e.min e.max (single e.event)
  | .any min max, nfa, entry => occurs nfa entry min max (single .wildcard)
  | .sequence items min max, nfa, entry => occurs nfa entry min max (buildSequence items)
  | .choice items min max, nfa, entry =>
      occurs nfa entry min max fun nfa source => do
        let (dest, nfa) := nfa.addState
        let nfa ← buildBranches items dest nfa source
        .ok (dest, nfa)
  | .all items _ _, nfa, entry =>
      if items.isEmpty then .ok (entry, nfa) else .error (.unsupported "xs:all")

/-- One after another, which is also what `Builder::complex_type` does with the particles of the
content. -/
def buildSequence : List Particle → Body
  | [], nfa, cur => .ok (cur, nfa)
  | item :: items, nfa, cur => do
      let (cur, nfa) ← buildParticle item nfa cur
      buildSequence items nfa cur

/-- All from one state, and on to one state. -/
def buildBranches : List Particle → Nat → Nfa → Nat → Except GrammarError Nfa
  | [], _, nfa, _ => .ok nfa
  | item :: items, dest, nfa, source => do
      let (branchExit, nfa) ← buildParticle item nfa source
      buildBranches items dest (nfa.epsilon branchExit dest) source

end

end Builder

/-- The complex type a type is derived from, where there is one. -/
def Schema.baseOf (schema : Schema) (ct : ComplexType) : Option ComplexType :=
  ct.base.bind schema.complex

namespace Builder

/-- `Builder::effective_particles`, by how many more levels of derivation are looked at. -/
def effectiveParticles (schema : Schema) : Nat → ComplexType → Except GrammarError (List Particle)
  | 0, _ => .error .cyclicDerivation
  | levels + 1, ct => do
      let inherited ← (match ct.derivation, schema.baseOf ct with
        | .extension, some base => effectiveParticles schema levels base
        | _, _ => .ok [])
      .ok (inherited ++ ct.particle.toList)

/-- `dedup_by`, with the element before. -/
def dedupAfter : Attribute → List Attribute → List Attribute
  | a, [] => [a]
  | a, b :: rest =>
      if b.name = a.name then dedupAfter a rest else a :: dedupAfter b rest

/-- `out.dedup_by(|a, b| a.name == b.name)`. -/
def dedup : List Attribute → List Attribute
  | [] => []
  | a :: rest => dedupAfter a rest

/-- `Builder::collect_attributes`. -/
def collectAttributes (schema : Schema) : Nat → ComplexType → Except GrammarError (List Attribute)
  | 0, _ => .error .cyclicDerivation
  | levels + 1, ct => do
      let inherited ← (match schema.baseOf ct with
        | some base => collectAttributes schema levels base
        | none => .ok [])
      .ok (dedup ((inherited ++ ct.attributes).insertionSort fun a b => a.name.le b.name))

/-- How many levels of derivation are looked at: depths 0 to 16. -/
def derivationLevels : Nat := 17

/-- The attributes, each of which may be skipped if it is optional. -/
def addAttributes : List Attribute → Nfa → Nat → Nat × Nfa
  | [], nfa, cursor => (cursor, nfa)
  | a :: rest, nfa, cursor =>
      let (next, nfa) := nfa.addState
      let nfa := nfa.edge cursor (.attribute a.name a.typeRef) next
      let nfa := if a.required then nfa else nfa.epsilon cursor next
      addAttributes rest nfa next

/-- Everything from here on is content. -/
def enterContent (nfa : Nfa) (cursor : Nat) : Nfa :=
  { nfa with
    inContent := true
    states := nfa.states.modify cursor fun s => { s with content := true } }

/-- The content of a type: its character data or its particles. -/
def buildContent (schema : Schema) (ct : ComplexType) : Body := fun nfa cursor =>
  match ct.simpleContent with
  | some simple => single (.characters (.named simple)) nfa cursor
  | none => do
      let particles ← effectiveParticles schema derivationLevels ct
      buildSequence particles nfa cursor

end Builder

/-! ## From automata to grammars

Sets of states are numbered as they are found, and the number of a set is its state in the
grammar. -/

/-- An entry of `edges` in `Builder::determinise`: an event, the first edge it is on, and where its
edges lead. -/
abbrev Labelled := Nat × Event × Finset Nat

namespace Builder

/-- One more edge: the same event from two states of the automaton is one production. -/
def addEdge (edges : List Labelled) (edge : Nat × Event × Nat) : List Labelled :=
  match edges, edge with
  | [], (order, event, target) => [(order, event, {target})]
  | (order', event', targets) :: rest, (order, event, target) =>
      if event' = event then (Nat.min order' order, event', insert target targets) :: rest
      else (order', event', targets) :: addEdge rest (order, event, target)

/-- Every labelled edge that leaves a set of states. -/
def gather (nfa : Nfa) (set : Finset Nat) : List Labelled :=
  (nfa.ascending set).foldl (fun edges q => (nfa.state q).edges.foldl addEdge edges) []

/-- In the order of the schema, the wildcard last. -/
def sortEdges (edges : List Labelled) : List Labelled :=
  edges.insertionSort fun a b =>
    (a.2.1 ≠ .wildcard ∧ b.2.1 = .wildcard)
      ∨ ((a.2.1 = .wildcard ↔ b.2.1 = .wildcard) ∧ a.1 ≤ b.1)

/-- What `Builder::determinise` has found so far: the sets it has to look at or has looked at, and
the states of the grammar. `index` gives each set its position in the queue, which is also the
number of its state. -/
structure Found where
  queue : List (Finset Nat)
  states : List State

/-- The state of a set, a new one unless the set is known. -/
def Found.index (found : Found) (set : Finset Nat) : Nat × Found :=
  match found.queue.idxOf? set with
  | some existing => (existing, found)
  | none => (found.states.length, ⟨found.queue ++ [set], found.states ++ [{}]⟩)

/-- A production for each event. -/
def follow (nfa : Nfa) : List Labelled → Found → List Production × Found
  | [], found => ([], found)
  | (_, event, targets) :: edges, found =>
      let (target, found) := found.index (nfa.closure targets)
      let (productions, found) := follow nfa edges found
      (⟨event, target⟩ :: productions, found)

/-- `usize::MAX`, for the target of the end of the element. -/
def noTarget : Nat := 18446744073709551615

/-- What a state offers after the declared events. -/
def closing (nfa : Nfa) (accept : Nat) (mixed : Bool) (set : Finset Nat) (id : Nat) :
    List Production :=
  (if accept ∈ set then [⟨.endElement, noTarget⟩] else [])
    ++ if mixed && (nfa.ascending set).any (fun q => (nfa.state q).content) then
        [⟨.charactersGeneric, id⟩]
      else []

/-- The loop of `Builder::determinise`. -/
def subsets (nfa : Nfa) (accept : Nat) (mixed : Bool) : Nat → Nat → Found → Found
  | 0, _, found => found
  | fuel + 1, head, found =>
      match found.queue[head]? with
      | none => found
      | some set =>
          let id := found.queue.idxOf set
          let (productions, found) := follow nfa (sortEdges (gather nfa set)) found
          let productions := productions ++ closing nfa accept mixed set id
          subsets nfa accept mixed fuel (head + 1)
            { found with states := found.states.set id ⟨productions⟩ }

/-- `Builder::determinise`. There are no more sets than the automaton has sets of states. -/
def determinise (nfa : Nfa) (entry accept : Nat) (mixed : Bool) : Grammar :=
  ⟨(subsets nfa accept mixed (2 ^ nfa.states.length) 0 ⟨[nfa.closure {entry}], [{}]⟩).states⟩

/-- `Builder::complex_type`. -/
def complexType (schema : Schema) (ct : ComplexType) : Except GrammarError Grammar := do
  let attributes ← collectAttributes schema derivationLevels ct
  let (cursor, nfa) := addAttributes attributes .new 0
  let (contentExit, nfa) ← buildContent schema ct (enterContent nfa cursor) cursor
  .ok (determinise nfa 0 contentExit ct.mixed)

/-- `Builder::simple_type`. -/
def simpleType (typeRef : TypeRef) : Grammar :=
  let (exit, nfa) := Nfa.new.addState
  determinise (nfa.edge 0 (.characters typeRef) exit) 0 exit false

end Builder

/-! ## What a grammar spells

The one definition here that is not the source's: paths from a state to the end of the element,
with the events along them. -/

/-- The event sequences along the paths from a state to a production that ends the element. -/
inductive Grammar.Spells (g : Grammar) : Nat → List Event → Prop where
  | done {i : Nat} {s : State} {p : Production} (hs : g.states[i]? = some s)
      (hp : p ∈ s.productions) (he : p.event = .endElement) : Spells g i []
  | step {i : Nat} {s : State} {p : Production} {w : List Event} (hs : g.states[i]? = some s)
      (hp : p ∈ s.productions) (he : p.event ≠ .endElement) (hw : Spells g p.target w) :
      Spells g i (p.event :: w)

end Iso15118.Codegen
