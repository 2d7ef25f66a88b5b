import Mathlib.Computability.EpsilonNFA
import Mathlib.Order.CompletePartialOrder

/-!
# Automata grown in place

An automaton is often built by adding states and edges to one growing graph. Each piece of it goes
from an entry that was there before to an exit. Nothing keeps the entry to the piece: other pieces
may have edges from the very same state, and a piece may lead back to it, from where any of them can
be taken next. So what a piece spells is not one language but two, a **`Loop`**: the words after
which it is back at its entry, and the words after which it has left by its exit.

* **`Fragment`** — a piece between two stages of the graph, whatever is added to the graph later;
* **`Fragment.seq`**, **`alt`**, **`skip`**, **`round`** — how pieces are put together, each of
  which does to the two languages what the operation of `Loop` of that name says;
* **`Fragment.spells_iff`** — from entry to exit of a whole automaton: any number of rounds, then
  the way out.
-/

open Computability

namespace Iso15118.Lib

universe u

variable {α : Type u}

/-! ## The two languages of a piece

`back` and `out` are languages and `whole` is what they come to when nothing else uses the entry:
any number of rounds, and then a way out. The operations follow the way an automaton is grown,
and each is compared with the operation on languages it is meant to be. -/

/-- The words that lead back to the entry of a piece of an automaton, and those that leave it. -/
@[ext]
structure Loop (α : Type u) where
  back : Language α
  out : Language α

namespace Loop

/-- What a piece spells that has its entry to itself. -/
def whole (l : Loop α) : Language α := l.back∗ * l.out

/-- No way through at all. -/
def none : Loop α := ⟨0, 0⟩

/-- One edge to the exit. -/
def edge (a : Option α) : Loop α := ⟨0, {a.toList}⟩

def seq (l m : Loop α) : Loop α := ⟨l.back, l.out * m.whole⟩

def alt (l m : Loop α) : Loop α := ⟨l.back + m.back, l.out + m.out⟩

/-- A piece that may be passed over. -/
def skip (l : Loop α) : Loop α := ⟨l.back, 1 + l.out⟩

/-- A piece that leads back to its own entry, from where the exit is reached without a word. -/
def round (l : Loop α) : Loop α := ⟨l.back + l.out, 1⟩

theorem edge_none : (edge Option.none : Loop α) = ⟨0, 1⟩ := rfl

theorem whole_none : (none : Loop α).whole = 0 := by simp [whole, none]

@[simp]
theorem whole_edge_none : (edge Option.none : Loop α).whole = 1 := by
  rw [edge_none]
  simp [whole]

@[simp]
theorem whole_edge_some (e : α) : (edge (some e)).whole = {[e]} := by
  show (0 : Language α)∗ * {[e]} = {[e]}
  rw [kstar_zero, one_mul]

@[simp]
theorem whole_seq (l m : Loop α) : (seq l m).whole = l.whole * m.whole :=
  (mul_assoc _ _ _).symm

@[simp]
theorem seq_edge_none (l : Loop α) : seq l (edge Option.none) = l := by
  ext1
  · rfl
  · show l.out * (edge Option.none).whole = l.out
    rw [whole_edge_none, mul_one]

theorem out_le_whole (l : Loop α) : l.out ≤ l.whole :=
  calc l.out = 1 * l.out := (one_mul _).symm
    _ ≤ l.back∗ * l.out := mul_le_mul' one_le_kstar le_rfl

/-- A piece `n` times before what follows. -/
def times (l : Loop α) (rest : Loop α) : Nat → Loop α
  | 0 => rest
  | n + 1 => l.seq (l.times rest n)

/-- A piece up to `n` times. -/
def upTo (l : Loop α) : Nat → Loop α
  | 0 => edge Option.none
  | n + 1 => (l.seq (l.upTo n)).skip

@[simp]
theorem whole_times (l rest : Loop α) (n : Nat) :
    (l.times rest n).whole = l.whole ^ n * rest.whole := by
  induction n with
  | zero => rw [times, pow_zero, one_mul]
  | succ n ih => rw [times, whole_seq, ih, pow_succ', mul_assoc]

/-- A round, or standing still, before a word of the whole is a word of the whole. -/
theorem append_mem_whole {l : Loop α} {u v : List α} (hu : u ∈ 1 + l.back) (hv : v ∈ l.whole) :
    u ++ v ∈ l.whole := by
  have hle : (1 + l.back) * l.whole ≤ l.whole := by
    have hback : l.back * l.whole ≤ l.whole := by
      unfold whole
      rw [← mul_assoc]
      exact mul_le_mul' mul_kstar_le_kstar le_rfl
    rw [add_mul, one_mul]
    exact add_le le_rfl hback
  exact hle (Language.append_mem_mul hu hv)

section Shared

variable (l : Loop α)

theorem whole_skip : l.skip.whole = l.back∗ + l.whole := by
  show l.back∗ * (1 + l.out) = l.back∗ + l.back∗ * l.out
  rw [mul_add, mul_one]

theorem whole_round : l.round.whole = (l.back + l.out)∗ := mul_one _

/-- Nothing is lost where a piece is made a loop. -/
theorem whole_kstar_le_round : l.whole∗ ≤ l.round.whole := by
  have hback : l.back∗ ≤ (l.back + l.out)∗ := kstar_mono le_self_add
  have hout : l.out ≤ (l.back + l.out)∗ := le_trans le_add_self le_kstar
  rw [whole_round]
  calc l.whole∗ ≤ (l.back + l.out)∗∗ := by
        refine kstar_mono ?_
        calc l.whole ≤ (l.back + l.out)∗ * (l.back + l.out)∗ := mul_le_mul' hback hout
          _ = (l.back + l.out)∗ := kstar_mul_kstar _
    _ = (l.back + l.out)∗ := kstar_idem _

/-- Nothing is lost where pieces share their entry. -/
theorem whole_le_alt (m : Loop α) : l.whole + m.whole ≤ (l.alt m).whole := by
  refine add_le ?_ ?_
  · exact mul_le_mul' (kstar_mono le_self_add) le_self_add
  · exact mul_le_mul' (kstar_mono le_add_self) le_add_self

theorem one_add_mul_le_skip (m : Loop α) : 1 + l.whole * m.whole ≤ (l.seq m).skip.whole := by
  rw [whole_skip, whole_seq]
  exact add_le_add one_le_kstar le_rfl

/-! What is gained is what a round of one piece lets another start with. Where the rounds there are
say nothing, it is nothing. -/

variable {l}

theorem whole_eq_out (h : l.back ≤ 1) : l.whole = l.out := by
  rw [whole, kstar_eq_one.mpr h, one_mul]

theorem whole_round_eq (h : l.back ≤ 1) : l.round.whole = l.whole∗ := by
  refine le_antisymm ?_ l.whole_kstar_le_round
  rw [whole_round, whole_eq_out h]
  calc (l.back + l.out)∗ ≤ l.out∗∗ :=
        kstar_mono (add_le (h.trans one_le_kstar) le_kstar)
    _ = l.out∗ := kstar_idem _

theorem whole_alt_eq {m : Loop α} (hl : l.back ≤ 1) (hm : m.back ≤ 1) :
    (l.alt m).whole = l.whole + m.whole := by
  have halt : (l.alt m).back ≤ 1 := add_le hl hm
  rw [whole_eq_out halt, whole_eq_out hl, whole_eq_out hm]
  rfl

theorem whole_skip_eq {m : Loop α} (h : l.back ≤ 1) :
    (l.seq m).skip.whole = 1 + l.whole * m.whole := by
  have hseq : (l.seq m).back∗ = 1 := kstar_eq_one.mpr h
  rw [whole_skip, hseq, whole_seq]

end Shared

theorem pow_le_upTo (l : Loop α) {i n : Nat} (h : i ≤ n) : l.whole ^ i ≤ (l.upTo n).whole := by
  induction n generalizing i with
  | zero =>
      obtain rfl : i = 0 := by omega
      rw [upTo, pow_zero, whole_edge_none]
  | succ n ih =>
      refine le_trans ?_ (l.one_add_mul_le_skip (l.upTo n))
      cases i with
      | zero =>
          rw [pow_zero]
          exact le_self_add
      | succ i =>
          rw [pow_succ']
          exact le_trans (mul_le_mul' le_rfl (ih (by omega))) le_add_self

theorem exists_pow_of_mem_upTo {l : Loop α} (hl : l.back ≤ 1) {n : Nat} {w : List α}
    (hw : w ∈ (l.upTo n).whole) : ∃ i, i ≤ n ∧ w ∈ l.whole ^ i := by
  induction n generalizing w with
  | zero =>
      rw [upTo, whole_edge_none] at hw
      exact ⟨0, le_rfl, by rwa [pow_zero]⟩
  | succ n ih =>
      rw [upTo, whole_skip_eq hl] at hw
      rcases hw with hw | hw
      · exact ⟨0, by omega, by rwa [pow_zero]⟩
      · obtain ⟨u, hu, v, hv, rfl⟩ := Language.mem_mul.mp hw
        obtain ⟨i, hi, hv⟩ := ih hv
        refine ⟨i + 1, by omega, ?_⟩
        rw [pow_succ']
        exact Language.append_mem_mul hu hv

/-! ### Words of one kind

A language that holds the empty word and is closed under appending. What holds of the words of
the parts then holds of the whole, whichever way they are put together. -/

/-- All words of a piece are of one kind. -/
def Within (K : Language α) (l : Loop α) : Prop := l.back ≤ K ∧ l.out ≤ K

section Within

variable {K : Language α} {l m : Loop α}

theorem Within.whole (hone : 1 ≤ K) (hmul : K * K ≤ K) (h : Within K l) : l.whole ≤ K := by
  have hback : l.back∗ ≤ K :=
    kstar_le_of_mul_le_left hone ((mul_le_mul' le_rfl h.1).trans hmul)
  exact (mul_le_mul' hback h.2).trans hmul

theorem Within.seq (hone : 1 ≤ K) (hmul : K * K ≤ K) (hl : Within K l) (hm : Within K m) :
    Within K (l.seq m) :=
  ⟨hl.1, (mul_le_mul' hl.2 (hm.whole hone hmul)).trans hmul⟩

theorem Within.alt (hl : Within K l) (hm : Within K m) : Within K (l.alt m) :=
  ⟨add_le hl.1 hm.1, add_le hl.2 hm.2⟩

theorem Within.skip (hone : 1 ≤ K) (hl : Within K l) : Within K l.skip :=
  ⟨hl.1, add_le hone hl.2⟩

theorem Within.round (hone : 1 ≤ K) (hl : Within K l) : Within K l.round :=
  ⟨add_le hl.1 hl.2, hone⟩

theorem Within.stop (hone : 1 ≤ K) : Within K (edge Option.none) := ⟨bot_le, hone⟩

theorem Within.times (hone : 1 ≤ K) (hmul : K * K ≤ K) (hl : Within K l) (hm : Within K m)
    (n : Nat) : Within K (l.times m n) := by
  induction n with
  | zero => exact hm
  | succ n ih => exact hl.seq hone hmul ih

theorem Within.upTo (hone : 1 ≤ K) (hmul : K * K ≤ K) (hl : Within K l) (n : Nat) :
    Within K (l.upTo n) := by
  induction n with
  | zero => exact Within.stop hone
  | succ n ih => exact (hl.seq hone hmul ih).skip hone

end Within

end Loop

/-! ## Paths that spell a word

Epsilon edges spell nothing, so a path spells the word of the letters on it. A path is taken
apart at its letters and put together at its states. -/

/-- `N` leads from `q` to `t` along edges that spell `w`. -/
def Spells (N : εNFA α Nat) (q : Nat) (w : List α) (t : Nat) : Prop :=
  ∃ p, p.reduceOption = w ∧ N.IsPath q t p

namespace Spells

variable {N : εNFA α Nat}

theorem nil (q : Nat) : Spells N q [] q := ⟨[], rfl, .nil q⟩

theorem single {q t : Nat} {a : Option α} (h : t ∈ N.step q a) : Spells N q a.toList t :=
  ⟨[a], by cases a <;> rfl, .singleton _ h⟩

theorem trans {q r t : Nat} {u v : List α} (hu : Spells N q u r) (hv : Spells N r v t) :
    Spells N q (u ++ v) t := by
  obtain ⟨p, rfl, hp⟩ := hu
  obtain ⟨p', rfl, hp'⟩ := hv
  refine ⟨p ++ p', List.reduceOption_append _ _, ?_⟩
  exact (N.isPath_append).mpr ⟨r, hp, hp'⟩

/-- A path that spells a word passes each of its letters. -/
theorem through {q t : Nat} {u v : List α} {a : α} (h : Spells N q (u ++ a :: v) t) :
    ∃ r r', Spells N q u r ∧ r' ∈ N.step r (some a) ∧ Spells N r' v t := by
  obtain ⟨p, hp, hpath⟩ := h
  rw [List.append_cons, List.reduceOption_eq_append_iff] at hp
  obtain ⟨p₁, p₂, rfl, hp₁, rfl⟩ := hp
  rw [← List.concat_eq_append, List.reduceOption_eq_concat_iff] at hp₁
  obtain ⟨p₀, p₁, rfl, rfl, hsilent⟩ := hp₁
  rw [List.append_assoc] at hpath
  obtain ⟨r, hfirst, hrest⟩ := N.isPath_append.mp hpath
  cases hrest with
  | cons r' _ _ _ _ hstep hrest =>
    refine ⟨r, r', ⟨p₀, rfl, hfirst⟩, hstep, p₁ ++ p₂, ?_, hrest⟩
    rw [List.reduceOption_append, hsilent, List.nil_append]

theorem kstar {q : Nat} {l : Language α} (h : ∀ u ∈ l, Spells N q u q) :
    ∀ u ∈ l∗, Spells N q u q := by
  intro u hu
  obtain ⟨us, rfl, hus⟩ := Language.mem_kstar.mp hu
  clear hu
  induction us with
  | nil => exact nil q
  | cons v us ih =>
      have htail : Spells N q us.flatten q := ih fun y hy => hus y (List.mem_cons_of_mem _ hy)
      exact (h v (hus v List.mem_cons_self)).trans htail

theorem whole {q t : Nat} {l : Loop α} (hback : ∀ u ∈ l.back, Spells N q u q)
    (hout : ∀ u ∈ l.out, Spells N q u t) : ∀ u ∈ l.whole, Spells N q u t := by
  intro u hu
  obtain ⟨v, hv, w, hw, rfl⟩ := Language.mem_mul.mp hu
  exact (kstar hback v hv).trans (hout w hw)

end Spells

/-! ## Graphs

What the construction changes: states are added behind the last one and edges to the list of a
state that is there. An edge that is added leaves all others as they were, and a graph without
loose ends stays one. -/

/-- The states and edges an automaton has at one stage of being built. The states are the numbers
below `size`; the others have no edges yet. -/
@[ext]
structure Graph (α : Type u) where
  size : Nat
  step : Nat → Option α → Set Nat
  fresh : ∀ q, size ≤ q → ∀ a, step q a = ∅

namespace Graph

/-- One more state. -/
def grow (G : Graph α) : Graph α where
  size := G.size + 1
  step := G.step
  fresh q hq a := G.fresh q (by omega) a

/-- One more edge. -/
def connect (G : Graph α) (s : Nat) (a : Option α) (r : Nat) (h : s < G.size) : Graph α where
  size := G.size
  step q o := {t | t ∈ G.step q o ∨ (q = s ∧ o = a ∧ t = r)}
  fresh q hq o := by
    ext t
    have hne : q ≠ s := by omega
    simp [G.fresh q hq o, hne]

@[simp] theorem grow_size (G : Graph α) : G.grow.size = G.size + 1 := rfl

@[simp] theorem grow_step (G : Graph α) : G.grow.step = G.step := rfl

section Connect

variable {G : Graph α} {s r : Nat} {a : Option α} {h : s < G.size}

@[simp] theorem connect_size : (G.connect s a r h).size = G.size := rfl

theorem mem_connect {q t : Nat} {o : Option α} :
    t ∈ (G.connect s a r h).step q o ↔ t ∈ G.step q o ∨ (q = s ∧ o = a ∧ t = r) := Iff.rfl

theorem connect_step_of_ne {q : Nat} (hq : q ≠ s) :
    (G.connect s a r h).step q = G.step q := by
  funext o
  ext t
  rw [mem_connect]
  simp [hq]

/-- Edges of one state may be added in any order. -/
theorem connect_comm {b : Option α} {t : Nat} {h' : s < (G.connect s a r h).size} :
    (G.connect s a r h).connect s b t h' = (G.connect s b t h).connect s a r h := by
  refine Graph.ext rfl ?_
  funext q o
  ext n
  exact or_right_comm

end Connect

/-- Every edge leads to a state there is, and every label is one of those expected. -/
def Closed (P : α → Prop) (G : Graph α) : Prop :=
  ∀ q a t, t ∈ G.step q a → t < G.size ∧ ∀ e ∈ a, P e

theorem Closed.grow {P : α → Prop} {G : Graph α} (h : G.Closed P) : G.grow.Closed P := by
  intro q a t ht
  obtain ⟨hlt, hP⟩ := h q a t ht
  exact ⟨Nat.lt_succ_of_lt hlt, hP⟩

theorem Closed.connect {P : α → Prop} {G : Graph α} (h : G.Closed P) {s r : Nat} {a : Option α}
    {hs : s < G.size} (hr : r < G.size) (ha : ∀ e ∈ a, P e) : (G.connect s a r hs).Closed P := by
  intro q o t ht
  rcases mem_connect.mp ht with hold | ⟨rfl, rfl, rfl⟩
  · exact h q o t hold
  · exact ⟨hr, ha⟩

end Graph

/-! ## Fragments

A piece is the difference between two graphs. Its inner states are those that were added, its
entry is shared, and its exit has no edges of it; so a path that enters a piece stays in it until
it takes the entry again or comes to the exit. -/

/-- What has been added to a graph between two stages is a piece from `s` to `x` that spells `l`.
Only its entry has edges it shares with others: those of the piece are `A`. The states in between
get no more edges later on, which is all that `sound` and `complete` ask of the finished automaton;
the exit is either one of the new states, and has no edges yet, or was there before. -/
structure Fragment (P : α → Prop) (A : Set (Option α × Nat)) (G₀ G₁ : Graph α) (s x : Nat)
    (l : Loop α) : Prop where
  grows : G₀.size ≤ G₁.size
  entry : s < G₀.size
  exit : x < G₁.size
  distinct : x ≠ s
  frame : ∀ q, q < G₀.size → q ≠ s → G₁.step q = G₀.step q
  entered : ∀ a r, r ∈ G₁.step s a ↔ r ∈ G₀.step s a ∨ (a, r) ∈ A
  unused : G₀.size ≤ x → ∀ a, G₁.step x a = ∅
  closed : G₀.Closed P → G₁.Closed P
  sound : ∀ (N : εNFA α Nat) (t : Nat),
    (∀ q, G₀.size ≤ q → q < G₁.size → q ≠ x → N.step q = G₁.step q) →
    (G₀.size ≤ t → t < G₁.size → t = x) →
    ∀ a r p, (a, r) ∈ A → N.IsPath r t p → ∃ u v, a :: p = u ++ v ∧ u ≠ [] ∧
      ((u.reduceOption ∈ 1 + l.back ∧ N.IsPath s t v)
        ∨ (u.reduceOption ∈ l.out ∧ N.IsPath x t v))
  complete : ∀ (N : εNFA α Nat),
    (∀ q, G₀.size ≤ q → q < G₁.size → q ≠ x → ∀ a, G₁.step q a ⊆ N.step q a) →
    (∀ a r, (a, r) ∈ A → r ∈ N.step s a) →
    (∀ u ∈ l.back, Spells N s u s) ∧ (∀ u ∈ l.out, Spells N s u x)

namespace Fragment

variable {P : α → Prop} {A A₁ A₂ : Set (Option α × Nat)} {G G₀ G₁ G₂ : Graph α} {s m x : Nat}
  {l l₁ l₂ : Loop α}

/-! ### Out of a piece whose entry nothing else uses

If no one has added edges to the entry before or since, the first state of a path is the entry of
this piece only, and the two languages of the piece decide what is spelled. -/

/-- A path out of a piece whose entry has no other edges goes some rounds and then leaves by the
exit. -/
theorem drain (F : Fragment P A G₀ G₁ s x l) {N : εNFA α Nat} {t : Nat}
    (hN : ∀ q, G₀.size ≤ q → q < G₁.size → q ≠ x → N.step q = G₁.step q)
    (hs : ∀ a r, r ∈ N.step s a → (a, r) ∈ A)
    (ht : G₀.size ≤ t → t < G₁.size → t = x) (hts : t ≠ s) {p : List (Option α)}
    (hp : N.IsPath s t p) :
    ∃ u v, p = u ++ v ∧ u.reduceOption ∈ l.whole ∧ N.IsPath x t v := by
  generalize hn : p.length = n
  induction n using Nat.strong_induction_on generalizing p with
  | _ n ih =>
      cases hp with
      | nil => exact absurd rfl hts
      | cons r _ _ a p hr hp =>
          obtain ⟨u, v, hsplit, hne, hcase⟩ := F.sound N t hN ht a r p (hs a r hr) hp
          have hlen : v.length < n := by
            have h := congrArg List.length hsplit
            have hu : 0 < u.length := List.length_pos_iff.mpr hne
            rw [List.length_append] at h
            omega
          rcases hcase with ⟨hu, hv⟩ | ⟨hu, hv⟩
          · -- back at the entry, with less of the path to go
            obtain ⟨u', v', rfl, hu', hv'⟩ := ih v.length hlen hv rfl
            refine ⟨u ++ u', v', by rw [hsplit, List.append_assoc], ?_, hv'⟩
            rw [List.reduceOption_append]
            exact Loop.append_mem_whole hu hu'
          · exact ⟨u, v, hsplit, l.out_le_whole hu, hv⟩

/-- What an automaton spells that is one piece with its entry to itself. -/
theorem spells_iff (F : Fragment P A G₀ G₁ s x l) (hx : G₀.size ≤ x)
    (hs : ∀ a, G₀.step s a = ∅) {N : εNFA α Nat} (hN : N.step = G₁.step) (w : List α) :
    Spells N s w x ↔ w ∈ l.whole := by
  have honly : ∀ a r, r ∈ N.step s a ↔ (a, r) ∈ A := by
    intro a r
    rw [hN, F.entered, hs]
    simp
  constructor
  · intro h
    obtain ⟨p, rfl, hp⟩ := h
    obtain ⟨u, v, rfl, hu, hv⟩ := F.drain (fun q _ _ _ => by rw [hN])
      (fun a r => (honly a r).mp) (fun _ _ => rfl) F.distinct hp
    have hempty : v = [] := by
      cases hv with
      | nil => rfl
      | cons r _ _ a v hr _ =>
          rw [hN, F.unused hx] at hr
          exact absurd hr (Set.notMem_empty r)
    rw [hempty, List.append_nil]
    exact hu
  · intro hw
    obtain ⟨hback, hout⟩ := F.complete N (fun q _ _ _ a => by rw [hN])
      fun a r => (honly a r).mpr
    exact Spells.whole hback hout w hw

/-! ### The pieces there are

The base cases: nothing, one edge, and the two changes to a piece that change neither of its
languages. -/

/-- Nothing has been added. -/
theorem none (hs : s < G.size) (hx : x < G.size) (hne : x ≠ s) :
    Fragment P ∅ G G s x Loop.none where
  grows := le_rfl
  entry := hs
  exit := hx
  distinct := hne
  frame _ _ _ := rfl
  entered a r := by simp
  unused h := absurd hx (by omega)
  closed h := h
  sound _ _ _ _ a r _ h := absurd h (Set.notMem_empty _)
  complete _ _ _ :=
    ⟨fun u h => absurd h (Language.notMem_zero u), fun u h => absurd h (Language.notMem_zero u)⟩

/-- One edge has been added. -/
theorem edge (a : Option α) (hs : s < G.size) (hx : x < G.size) (hne : x ≠ s)
    (ha : ∀ e ∈ a, P e) :
    Fragment P {(a, x)} G (G.connect s a x hs) s x (Loop.edge a) where
  grows := le_rfl
  entry := hs
  exit := hx
  distinct := hne
  frame _ _ h := Graph.connect_step_of_ne h
  entered o r := by
    rw [Graph.mem_connect]
    simp
  unused h := absurd hx (by omega)
  closed h := h.connect hx ha
  sound N t _ _ o r p h hp := by
    obtain ⟨rfl, rfl⟩ : o = a ∧ r = x := by simpa using h
    refine ⟨[o], p, rfl, by simp, Or.inr ⟨?_, hp⟩⟩
    cases o <;> exact Set.mem_singleton _
  complete N _ hA := by
    refine ⟨fun u h => absurd h (Language.notMem_zero u), fun u hu => ?_⟩
    obtain rfl : u = a.toList := hu
    exact Spells.single (hA a x rfl)

/-- The exit may have been allocated first. -/
theorem allocate (F : Fragment P A G.grow G₁ s G.size l) (hs : s < G.size) :
    Fragment P A G G₁ s G.size l where
  grows := (Nat.le_succ _).trans F.grows
  entry := hs
  exit := F.exit
  distinct := F.distinct
  frame q hq hne := F.frame q (Nat.lt_succ_of_lt hq) hne
  entered := F.entered
  unused _ a := by
    rw [F.frame G.size (Nat.lt_succ_self _) F.distinct]
    exact G.fresh G.size le_rfl a
  closed h := F.closed h.grow
  sound N t hN ht :=
    F.sound N t (fun q hq hlt hne => hN q (Nat.le_of_succ_le hq) hlt hne)
      fun hle hlt => ht (Nat.le_of_succ_le hle) hlt
  complete N hN hA :=
    F.complete N (fun q hq hlt hne => hN q (Nat.le_of_succ_le hq) hlt hne) hA

/-- Standing still is a round like any other. -/
theorem relax (F : Fragment P A G₀ G₁ s x l₁) (hback : 1 + l₂.back = 1 + l₁.back)
    (hout : l₂.out = l₁.out) : Fragment P A G₀ G₁ s x l₂ where
  grows := F.grows
  entry := F.entry
  exit := F.exit
  distinct := F.distinct
  frame := F.frame
  entered := F.entered
  unused := F.unused
  closed := F.closed
  sound := by
    rw [hback, hout]
    exact F.sound
  complete N hN hA := by
    obtain ⟨hback₁, hout₁⟩ := F.complete N hN hA
    refine ⟨fun u hu => ?_, by rw [hout]; exact hout₁⟩
    have hmem : u ∈ 1 + l₁.back := by
      rw [← hback]
      exact Or.inr hu
    rcases hmem with hone | hmem
    · obtain rfl : u = [] := hone
      exact Spells.nil s
    · exact hback₁ u hmem

/-! ### How pieces are put together

One lemma for each way a construction goes on from a graph that holds a piece. Each shows that
the states added since are those of both pieces and that a path from the entry can be taken apart
accordingly, by induction on its length. -/

/-- One piece after another. -/
theorem seq (F₁ : Fragment P A₁ G₀ G₁ s m l₁) (F₂ : Fragment P A₂ G₁ G₂ m x l₂)
    (hm : G₀.size ≤ m) (hx : x < G₀.size ∨ G₁.size ≤ x) (hxs : x ≠ s) :
    Fragment P A₁ G₀ G₂ s x (l₁.seq l₂) := by
  have hs : s < G₁.size := F₁.entry.trans_le F₁.grows
  have hsm : s ≠ m := F₁.distinct.symm
  have hgrows := F₂.grows
  have hmlt := F₁.exit
  -- in the finished automaton the middle has the edges of the second piece and no others
  have hmiddle : ∀ a r, r ∈ G₂.step m a ↔ (a, r) ∈ A₂ := by
    intro a r
    rw [F₂.entered, F₁.unused hm]
    simp
  have hinner : ∀ q, q < G₁.size → q ≠ m → G₂.step q = G₁.step q := F₂.frame
  constructor
  · exact F₁.grows.trans F₂.grows
  · exact F₁.entry
  · exact F₂.exit
  · exact hxs
  · intro q hq hne
    have hqm : q ≠ m := by omega
    rw [hinner q (hq.trans_le F₁.grows) hqm]
    exact F₁.frame q hq hne
  -- the second piece leaves the entry alone, and all states of the first but the middle
  · intro a r
    rw [hinner s hs hsm]
    exact F₁.entered a r
  · intro hle
    exact F₂.unused (by omega)
  · intro h
    exact F₂.closed (F₁.closed h)
  -- soundness: a path goes through the first piece, which it leaves at the middle or goes round in
  · intro N t hN ht a r p ha hp
    have hfirst : ∀ q, G₀.size ≤ q → q < G₁.size → q ≠ m → N.step q = G₁.step q := by
      intro q hle hlt hne
      rw [hN q hle (hlt.trans_le F₂.grows) (by omega), hinner q hlt hne]
    have hsecond : ∀ q, G₁.size ≤ q → q < G₂.size → q ≠ x → N.step q = G₂.step q := by
      intro q hle hlt hne
      exact hN q (F₁.grows.trans hle) hlt hne
    have hstep : N.step m = G₂.step m := hN m hm (by omega) (by omega)
    have htm : t ≠ m := by
      intro h
      have hmx : m = x := h ▸ ht (by omega) (by omega)
      exact F₂.distinct hmx.symm
    obtain ⟨u, v, hsplit, hne, hcase⟩ := F₁.sound N t hfirst
      (fun hle hlt => absurd (ht hle (hlt.trans_le F₂.grows)) (by omega)) a r p ha hp
    rcases hcase with ⟨hu, hv⟩ | ⟨hu, hv⟩
    · exact ⟨u, v, hsplit, hne, Or.inl ⟨hu, hv⟩⟩
    · -- at the middle, from where only the second piece leads on
      obtain ⟨u', v', rfl, hu', hv'⟩ := F₂.drain hsecond
        (fun a r hr => (hmiddle a r).mp (by rw [← hstep]; exact hr))
        (fun hle hlt => ht (F₁.grows.trans hle) hlt) htm hv
      refine ⟨u ++ u', v', by rw [hsplit, List.append_assoc], by simp [hne], Or.inr ⟨?_, hv'⟩⟩
      rw [List.reduceOption_append]
      exact Language.append_mem_mul hu hu'
  -- completeness: a way through the first piece and then a way through the second
  · intro N hN hA
    have hfirst : ∀ q, G₀.size ≤ q → q < G₁.size → q ≠ m → ∀ a, G₁.step q a ⊆ N.step q a := by
      intro q hle hlt hne
      rw [← hinner q hlt hne]
      exact hN q hle (hlt.trans_le F₂.grows) (by omega)
    have hsecond : ∀ q, G₁.size ≤ q → q < G₂.size → q ≠ x → ∀ a, G₂.step q a ⊆ N.step q a := by
      intro q hle
      exact hN q (F₁.grows.trans hle)
    have hstep : ∀ a r, (a, r) ∈ A₂ → r ∈ N.step m a := by
      intro a r h
      exact hN m hm (by omega) (by omega) a ((hmiddle a r).mpr h)
    obtain ⟨hback₁, hout₁⟩ := F₁.complete N hfirst hA
    obtain ⟨hback₂, hout₂⟩ := F₂.complete N hsecond hstep
    refine ⟨hback₁, fun u hu => ?_⟩
    obtain ⟨v, hv, w, hw, rfl⟩ := Language.mem_mul.mp hu
    exact (hout₁ v hv).trans (Spells.whole hback₂ hout₂ w hw)

/-- Two pieces from one entry to one exit. After a round of the one the other is open again. -/
theorem alt (F₁ : Fragment P A₁ G₀ G₁ s x l₁) (F₂ : Fragment P A₂ G₁ G₂ s x l₂)
    (hx : x < G₀.size) : Fragment P (A₁ ∪ A₂) G₀ G₂ s x (l₁.alt l₂) := by
  have hgrows₁ := F₁.grows
  have hgrows₂ := F₂.grows
  have hentry := F₁.entry
  have hinner : ∀ q, q < G₁.size → q ≠ s → G₂.step q = G₁.step q := F₂.frame
  constructor
  · exact F₁.grows.trans F₂.grows
  · exact F₁.entry
  · exact F₂.exit
  · exact F₁.distinct
  -- neither piece touches the states of the other, the entry apart
  · intro q hq hne
    rw [hinner q (hq.trans_le F₁.grows) hne]
    exact F₁.frame q hq hne
  · intro a r
    rw [F₂.entered, F₁.entered, Set.mem_union, or_assoc]
  · intro hle
    exact absurd hx (by omega)
  · intro h
    exact F₂.closed (F₁.closed h)
  -- a run that leaves by one piece never passes through the other
  · intro N t hN ht a r p ha hp
    rcases ha with ha | ha
    · obtain ⟨u, v, hsplit, hne, hcase⟩ := F₁.sound N t
        (fun q hle hlt hqx => by
          rw [hN q hle (by omega) hqx, hinner q hlt (by omega)])
        (fun hle hlt => ht hle (by omega)) a r p ha hp
      refine ⟨u, v, hsplit, hne, hcase.imp ?_ ?_⟩
      · intro ⟨hu, hv⟩
        exact ⟨hu.imp id Or.inl, hv⟩
      · intro ⟨hu, hv⟩
        exact ⟨Or.inl hu, hv⟩
    · obtain ⟨u, v, hsplit, hne, hcase⟩ := F₂.sound N t
        (fun q hle hlt hqx => hN q (by omega) hlt hqx)
        (fun hle hlt => ht (by omega) hlt) a r p ha hp
      refine ⟨u, v, hsplit, hne, hcase.imp ?_ ?_⟩
      · intro ⟨hu, hv⟩
        exact ⟨hu.imp id Or.inr, hv⟩
      · intro ⟨hu, hv⟩
        exact ⟨Or.inr hu, hv⟩
  -- a run through either piece is one through both
  · intro N hN hA
    obtain ⟨hback₁, hout₁⟩ := F₁.complete N
      (fun q hle hlt hqx => by
        rw [← hinner q hlt (by omega)]
        exact hN q hle (by omega) hqx)
      fun a r h => hA a r (Or.inl h)
    obtain ⟨hback₂, hout₂⟩ := F₂.complete N
      (fun q hle hlt hqx => hN q (by omega) hlt hqx) fun a r h => hA a r (Or.inr h)
    exact ⟨fun u hu => hu.elim (hback₁ u) (hback₂ u), fun u hu => hu.elim (hout₁ u) (hout₂ u)⟩

/-- A piece added after an edge that passes it over. -/
theorem skip {hs : s < G₀.size} (F : Fragment P A (G₀.connect s Option.none x hs) G₁ s x l)
    (hx : x < G₀.size) : Fragment P (insert (Option.none, x) A) G₀ G₁ s x l.skip := by
  have hgrows : G₀.size ≤ G₁.size := F.grows
  constructor
  · exact F.grows
  · exact hs
  · exact F.exit
  · exact F.distinct
  · intro q hq hne
    rw [F.frame q hq hne]
    exact Graph.connect_step_of_ne hne
  · intro a r
    rw [F.entered, Graph.mem_connect, Set.mem_insert_iff, or_assoc, Prod.mk.injEq]
    simp
  · intro hle
    exact absurd hx (by omega)
  · intro h
    exact F.closed (h.connect hx (by simp))
  · intro N t hN ht a r p ha hp
    rcases ha with ha | ha
    · obtain ⟨rfl, rfl⟩ : a = Option.none ∧ r = x := by simpa using ha
      exact ⟨[Option.none], p, rfl, by simp, Or.inr ⟨Or.inl rfl, hp⟩⟩
    · obtain ⟨u, v, hsplit, hne, hcase⟩ := F.sound N t hN ht a r p ha hp
      exact ⟨u, v, hsplit, hne, hcase.imp id fun ⟨hu, hv⟩ => ⟨Or.inr hu, hv⟩⟩
  · intro N hN hA
    obtain ⟨hback, hout⟩ := F.complete N hN fun a r h => hA a r (Or.inr h)
    refine ⟨hback, fun u hu => ?_⟩
    rcases hu with hone | hu
    · obtain rfl : u = [] := hone
      exact Spells.single (hA Option.none x (Or.inl rfl))
    · exact hout u hu

/-- An edge from the entry to itself that says nothing changes nothing. -/
theorem stay {hs : s < G₀.size} (F : Fragment P A (G₀.connect s Option.none s hs) G₁ s x l) :
    Fragment P (insert (Option.none, s) A) G₀ G₁ s x l where
  grows := F.grows
  entry := hs
  exit := F.exit
  distinct := F.distinct
  frame q hq hne := by
    rw [F.frame q hq hne]
    exact Graph.connect_step_of_ne hne
  entered a r := by
    rw [F.entered, Graph.mem_connect, Set.mem_insert_iff, or_assoc, Prod.mk.injEq]
    simp
  unused := F.unused
  closed h := F.closed (h.connect hs (by simp))
  sound N t hN ht a r p ha hp := by
    rcases ha with ha | ha
    · obtain ⟨rfl, rfl⟩ : a = Option.none ∧ r = s := by simpa using ha
      exact ⟨[Option.none], p, rfl, by simp, Or.inl ⟨Or.inl rfl, hp⟩⟩
    · exact F.sound N t hN ht a r p ha hp
  complete N hN hA := F.complete N hN fun a r h => hA a r (Or.inr h)

/-- A piece closed to a loop: its exit leads back to its entry, and the entry to the exit of the
whole. -/
theorem round (F : Fragment P A G₀ G₁ s m l) (hm : G₀.size ≤ m) (hx : x < G₀.size) (hxs : x ≠ s)
    {hlt : m < G₁.size} {hs : s < (G₁.connect m Option.none s hlt).size} :
    Fragment P (insert (Option.none, x) A) G₀
      ((G₁.connect m Option.none s hlt).connect s Option.none x hs) s x l.round := by
  have hgrows := F.grows
  have hsm : s ≠ m := F.distinct.symm
  have hentry := F.entry
  have hinner : ∀ q, q ≠ s → q ≠ m →
      ((G₁.connect m Option.none s hlt).connect s Option.none x hs).step q = G₁.step q := by
    intro q hqs hqm
    rw [Graph.connect_step_of_ne hqs, Graph.connect_step_of_ne hqm]
  -- the exit of the piece leads back to its entry and nowhere else
  have hmiddle : ∀ a r, r ∈ ((G₁.connect m Option.none s hlt).connect s Option.none x hs).step m a
      ↔ a = Option.none ∧ r = s := by
    intro a r
    rw [Graph.connect_step_of_ne hsm.symm, Graph.mem_connect, F.unused hm]
    simp
  constructor
  · exact F.grows
  · exact F.entry
  · exact hx.trans_le F.grows
  · exact hxs
  -- the states between entry and exit are those of the piece
  · intro q hq hne
    rw [hinner q hne (by omega)]
    exact F.frame q hq hne
  -- the entry has one edge more, to the exit of the whole
  · intro a r
    rw [Graph.mem_connect, Graph.connect_step_of_ne hsm, F.entered, Set.mem_insert_iff,
      Prod.mk.injEq]
    simp
    tauto
  · intro hle
    exact absurd hx (by omega)
  · intro h
    exact ((F.closed h).connect (hentry.trans_le hgrows) (by simp)).connect
      (hx.trans_le hgrows) (by simp)
  · intro N t hN ht a r p ha hp
    -- out by the new edge, without a word
    rcases ha with ha | ha
    · obtain ⟨rfl, rfl⟩ : a = Option.none ∧ r = x := by simpa using ha
      exact ⟨[Option.none], p, rfl, by simp, Or.inr ⟨rfl, hp⟩⟩
    -- or into the piece, and out of it at its exit, from where the one edge leads back
    · have hstep : N.step m
          = ((G₁.connect m Option.none s hlt).connect s Option.none x hs).step m :=
        hN m hm hlt (by omega)
      have hmt : m ≠ t := by
        rintro rfl
        exact absurd (ht hm hlt) (by omega)
      obtain ⟨u, v, hsplit, hne, hcase⟩ := F.sound N t
        (fun q hle hqlt hqm => by rw [hN q hle hqlt (by omega), hinner q (by omega) hqm])
        (fun hle hqlt => absurd (ht hle hqlt) (by omega)) a r p ha hp
      rcases hcase with ⟨hu, hv⟩ | ⟨hu, hv⟩
      · exact ⟨u, v, hsplit, hne, Or.inl ⟨hu.imp id Or.inl, hv⟩⟩
      · cases hv with
        -- a path does not end at the exit of the piece
        | nil => exact absurd rfl hmt
        -- back at the entry: the word that left the piece is now one of a round
        | cons q _ _ o v hq hv =>
            rw [hstep, hmiddle] at hq
            obtain ⟨rfl, rfl⟩ := hq
            refine ⟨u ++ [Option.none], v, by rw [hsplit]; simp, by simp, Or.inl ⟨?_, hv⟩⟩
            have hword : (u ++ [Option.none]).reduceOption = u.reduceOption := by
              rw [List.reduceOption_append]
              simp
            rw [hword]
            exact Or.inr (Or.inr hu)
  · intro N hN hA
    -- a round is a way back, or a way out followed by the edge that leads back
    obtain ⟨hback, hout⟩ := F.complete N
      (fun q hle hqlt hqm => by
        rw [← hinner q (by omega) hqm]
        exact hN q hle hqlt (by omega))
      fun a r h => hA a r (Or.inr h)
    have hreturn : Spells N m [] s :=
      Spells.single (hN m hm hlt (by omega) Option.none ((hmiddle _ _).mpr ⟨rfl, rfl⟩))
    refine ⟨fun u hu => ?_, fun u hu => ?_⟩
    · rcases hu with hu | hu
      · exact hback u hu
      · have h := (hout u hu).trans hreturn
        rwa [List.append_nil] at h
    · obtain rfl : u = [] := hu
      exact Spells.single (hA Option.none x (Or.inl rfl))

end Fragment

/-! ## Chains of pieces

A list of items becomes one piece after another, each with its own exit. The chain is taken apart
at its first piece, the way it was built. -/

/-- Any number of pieces one after another, each from the exit of the one before: none at all, or
a piece with an exit of its own. -/
def Chain (P : α → Prop) (G₀ G₁ : Graph α) (s x : Nat) (l : Loop α) : Prop :=
  (x = s ∧ G₁ = G₀ ∧ l = Loop.edge none) ∨ (G₀.size ≤ x ∧ ∃ A, Fragment P A G₀ G₁ s x l)

namespace Chain

variable {P : α → Prop} {A : Set (Option α × Nat)} {G G₀ G₁ G₂ : Graph α} {s m x : Nat}
  {l l₁ l₂ : Loop α}

theorem empty : Chain P G G s s (Loop.edge none) := Or.inl ⟨rfl, rfl, rfl⟩

theorem grows (h : Chain P G₀ G₁ s x l) : G₀.size ≤ G₁.size := by
  rcases h with ⟨_, rfl, _⟩ | ⟨_, _, F⟩
  · exact le_rfl
  · exact F.grows

theorem closed (h : Chain P G₀ G₁ s x l) (hG : G₀.Closed P) : G₁.Closed P := by
  rcases h with ⟨_, rfl, _⟩ | ⟨_, _, F⟩
  · exact hG
  · exact F.closed hG

theorem exit (h : Chain P G₀ G₁ s x l) (hs : s < G₀.size) : x < G₁.size := by
  rcases h with ⟨rfl, rfl, _⟩ | ⟨_, _, F⟩
  · exact hs
  · exact F.exit

/-- A piece before a chain. -/
theorem cons (F : Fragment P A G₀ G₁ s m l₁) (hm : G₀.size ≤ m) (h : Chain P G₁ G₂ m x l₂) :
    G₀.size ≤ x ∧ Fragment P A G₀ G₂ s x (l₁.seq l₂) := by
  rcases h with ⟨rfl, rfl, rfl⟩ | ⟨hx, A', F'⟩
  · rw [Loop.seq_edge_none]
    exact ⟨hm, F⟩
  · have hgrows := F.grows
    have hentry := F.entry
    exact ⟨hgrows.trans hx, F.seq F' hm (Or.inr hx) (by omega)⟩

/-- What an automaton spells that is one chain. -/
theorem spells_iff (h : Chain P G₀ G₁ s x l) (hs : ∀ a, G₀.step s a = ∅) {N : εNFA α Nat}
    (hN : N.step = G₁.step) (w : List α) : Spells N s w x ↔ w ∈ l.whole := by
  rcases h with ⟨rfl, rfl, rfl⟩ | ⟨hx, A, F⟩
  · rw [Loop.whole_edge_none, Language.mem_one]
    constructor
    · rintro ⟨p, rfl, hp⟩
      cases hp with
      | nil => rfl
      | cons r _ _ a p hr _ =>
          rw [hN, hs] at hr
          exact absurd hr (Set.notMem_empty r)
    · rintro rfl
      exact Spells.nil x
  · exact F.spells_iff hx hs hN w

end Chain

end Iso15118.Lib
