import Iso15118.Codegen.Construction

/-!
# Content models as languages

What a content model means, apart from how it is compiled: a sequence is concatenation, a choice is
union and occurrence bounds are repetition. Compared with the shape the construction gives a
particle, nothing is ever missing (**`language_le_shape`**). Something may have been added: a
particle that may occur any number of times, or not at all, leads back to the state it starts from,
and where that state is shared, what shares it can start again. So nothing is added if no such
particle shares the state it starts from (**`shape_le_language`**).
-/

open Computability

namespace Iso15118.Codegen

open Lib

/-! ## The language of a particle

The meaning of a particle, in terms of languages only: nothing of the construction is in it. -/

/-- `{min,max}`. -/
def repetition (l : Language Event) (min max : Nat) : Language Event :=
  {w | ∃ n, min ≤ n ∧ (max = unbounded ∨ n ≤ max) ∧ w ∈ l ^ n}

mutual

/-- The regular language of a particle. -/
def Particle.language : Particle → Language Event
  | .element e => repetition {[e.event]} e.min e.max
  | .any min max => repetition {[.wildcard]} min max
  | .sequence items min max => repetition (sequenceLanguage items) min max
  | .choice items min max => repetition (choiceLanguage items) min max
  | .all _ _ _ => 0

def sequenceLanguage : List Particle → Language Event
  | [] => 1
  | item :: items => item.language * sequenceLanguage items

def choiceLanguage : List Particle → Language Event
  | [] => 0
  | item :: items => item.language + choiceLanguage items

end

/-! ## Particles that are looked at

Bounds too large to be unrolled are approximated and `xs:all` is not supported, so both are left
out. `separate` is read off the syntax of a particle, and is what keeps its loops away from its
siblings. -/

/-- Bounds that are unrolled, not approximated. -/
def Unrolled (min max : Nat) : Prop :=
  min ≤ max ∧ min ≤ maxUnroll ∧ (max = unbounded ∨ max ≤ maxUnroll)

mutual

/-- Elements, wildcards, sequences and choices, nested in any way. -/
def Particle.Plain : Particle → Prop
  | .element e => Unrolled e.min e.max
  | .any min max => Unrolled min max
  | .sequence items min max | .choice items min max => Unrolled min max ∧ Plains items
  | .all _ _ _ => False

def Plains : List Particle → Prop
  | [] => True
  | item :: items => item.Plain ∧ Plains items

end

mutual

/-- What leads back to the state it starts from after a word: what may occur any number of times or
not at all, and what begins with it. -/
def Particle.reenters : Particle → Bool
  | .element e => e.min = 0 && e.max = unbounded
  | .any min max => min = 0 && max = unbounded
  | .sequence items min max =>
      max ≠ 0 && (headReenters items || (!items.isEmpty && min = 0 && max = unbounded))
  | .choice items min max =>
      max ≠ 0 && (anyReenters items || (!items.isEmpty && min = 0 && max = unbounded))
  | .all _ _ _ => false

def headReenters : List Particle → Bool
  | [] => false
  | item :: _ => item.reenters

def anyReenters : List Particle → Bool
  | [] => false
  | item :: items => item.reenters || anyReenters items

end

mutual

/-- Nothing that leads back to the state it starts from shares it: neither with another branch of a
choice, nor with the way past a group that may occur a different number of times. -/
def Particle.separate : Particle → Bool
  | .element _ | .any _ _ | .all _ _ _ => true
  | .sequence items min max =>
      max = 0 || (separates items && (min = max || !headReenters items))
  | .choice items min max =>
      max = 0 || (separates items && (items.length ≤ 1 || !anyReenters items)
        && (min = max || !anyReenters items))

def separates : List Particle → Bool
  | [] => true
  | item :: items => item.separate && separates items

end

mutual

theorem Particle.Plain.noAll : ∀ {p : Particle}, p.Plain → p.NoAll
  | .element _, _ | .any _ _, _ => trivial
  | .sequence _ _ _, h => Plains.noAlls h.2
  | .choice _ _ _, h => Plains.noAlls h.2
  | .all _ _ _, h => h

theorem Plains.noAlls : ∀ {items : List Particle}, Plains items → NoAlls items
  | [], _ => trivial
  | _ :: _, h => ⟨Particle.Plain.noAll h.1, Plains.noAlls h.2⟩

end

/-! ## Repetition

The shape of a repetition against the powers of a language. This is where words may be added: an
optional occurrence leads back to the entry, and from there the others may be taken again. -/

section Repetition

variable {l : Language Event} {m : Loop Event} {min max : Nat}

theorem repetition_mono {l' : Language Event} (h : l ≤ l') :
    repetition l min max ≤ repetition l' min max := by
  rintro w ⟨n, hmin, hmax, hw⟩
  exact ⟨n, hmin, hmax, pow_le_pow_left' h n hw⟩

theorem Unrolled.required (h : Unrolled min max) : Nat.min min maxUnroll = min :=
  Nat.min_eq_left h.2.1

/-- Whether the occurrences past the mandatory ones are a loop. -/
theorem Unrolled.loop_iff (h : Unrolled min max) :
    (max = unbounded ∨ maxUnroll < max) ↔ max = unbounded := by
  constructor
  · rintro (hmax | hmax)
    · exact hmax
    · exact h.2.2.resolve_right (by omega)
  · exact Or.inl

/-- Nothing is missing where a piece is repeated. -/
theorem repetition_le_occursShape (h : Unrolled min max) :
    repetition m.whole min max ≤ (occursShape m min max).whole := by
  rintro w ⟨n, hmin, hmax, hw⟩
  obtain ⟨k, rfl⟩ : ∃ k, n = min + k := ⟨n - min, by omega⟩
  rw [pow_add] at hw
  rw [occursShape, Loop.whole_times, h.required]
  have htail : m.whole ^ k
      ≤ (if max = unbounded ∨ maxUnroll < max then m.round else m.upTo (max - min)).whole := by
    by_cases hloop : max = unbounded
    · rw [if_pos (Or.inl hloop)]
      exact pow_le_kstar.trans m.whole_kstar_le_round
    · rw [if_neg (fun hor => hloop (h.loop_iff.mp hor))]
      have hk := hmax.resolve_left hloop
      exact m.pow_le_upTo (by omega)
  have hle := mul_le_mul' (le_refl (m.whole ^ min)) htail
  exact hle hw

/-- Nothing is added where a piece is repeated that does not lead back to its entry, or that occurs
a fixed number of times. -/
theorem occursShape_le_repetition (h : Unrolled min max) (hm : min = max ∨ m.back ≤ 1) :
    (occursShape m min max).whole ≤ repetition m.whole min max := by
  intro w hw
  rw [occursShape, Loop.whole_times, h.required] at hw
  obtain ⟨u, hu, v, hv, rfl⟩ := Language.mem_mul.mp hw
  -- the occurrences past the mandatory ones
  have htail : ∃ k, (max = unbounded ∨ min + k ≤ max) ∧ v ∈ m.whole ^ k := by
    by_cases hloop : max = unbounded
    · rw [if_pos (Or.inl hloop)] at hv
      have hback : m.back ≤ 1 := by
        refine hm.resolve_left fun heq => ?_
        have hle := h.2.1
        rw [heq, hloop] at hle
        exact absurd hle (by decide)
      rw [Loop.whole_round_eq hback, Language.kstar_eq_iSup_pow] at hv
      obtain ⟨k, hk⟩ := Language.mem_iSup.mp hv
      exact ⟨k, Or.inl hloop, hk⟩
    · rw [if_neg (fun hor => hloop (h.loop_iff.mp hor))] at hv
      rcases hm with heq | hback
      · rw [heq, Nat.sub_self, Loop.upTo, Loop.whole_edge_none] at hv
        exact ⟨0, Or.inr (by omega), by rwa [pow_zero]⟩
      · obtain ⟨k, hk, hv⟩ := Loop.exists_pow_of_mem_upTo hback hv
        have hle := h.1
        exact ⟨k, Or.inr (by omega), hv⟩
  obtain ⟨k, hk, hv⟩ := htail
  refine ⟨min + k, Nat.le_add_right _ _, hk, ?_⟩
  rw [pow_add]
  exact Language.append_mem_mul hu hv

theorem occursShape_zero : occursShape m 0 0 = .edge none := rfl

theorem one_le_repetition_zero : 1 ≤ repetition l 0 0 := by
  intro w hw
  exact ⟨0, le_rfl, Or.inr le_rfl, by rwa [pow_zero]⟩

/-- A piece leads back to its entry after a word only if it may occur any number of times or not at
all, or if its first occurrence does. -/
theorem back_occursShape_le (h : Unrolled min max) (hm : max = 0 ∨ m.back ≤ 1)
    (hloop : min = 0 → max = unbounded → m.out ≤ 1) : (occursShape m min max).back ≤ 1 := by
  rw [occursShape, h.required]
  have hle := h.1
  cases min with
  | zero =>
      by_cases hmax : max = unbounded
      · rw [if_pos (Or.inl hmax)]
        have hback : m.back ≤ 1 := hm.resolve_left (by rw [hmax]; decide)
        exact add_le hback (hloop rfl hmax)
      · rw [if_neg (fun hor => hmax (h.loop_iff.mp hor))]
        cases max with
        | zero => exact bot_le
        | succ max => exact hm.resolve_left (Nat.succ_ne_zero max)
  | succ min => exact hm.resolve_left (by omega)

end Repetition

/-! ## Nothing is missing

By induction on the particle, with the lists of particles alongside. Each operation on shapes
contains the one on languages. -/

mutual

theorem language_le_shape : ∀ (p : Particle), p.Plain → p.language ≤ p.shape.whole
  | .element e, h => by
      have hle := repetition_le_occursShape (m := .edge (some e.event)) h
      rwa [Loop.whole_edge_some] at hle
  | .any min max, h => by
      have hle := repetition_le_occursShape (m := .edge (some .wildcard)) h
      rwa [Loop.whole_edge_some] at hle
  | .sequence items min max, h =>
      (repetition_mono (sequenceLanguage_le_shape items h.2)).trans
        (repetition_le_occursShape h.1)
  | .choice items min max, h =>
      (repetition_mono (choiceLanguage_le_shape items h.2)).trans
        (repetition_le_occursShape h.1)
  | .all _ _ _, h => h.elim

theorem sequenceLanguage_le_shape : ∀ (items : List Particle), Plains items →
    sequenceLanguage items ≤ (sequenceShape items).whole
  | [], _ => by
      rw [sequenceShape, Loop.whole_edge_none]
      exact le_rfl
  | item :: items, h => by
      rw [sequenceShape, Loop.whole_seq]
      exact mul_le_mul' (language_le_shape item h.1) (sequenceLanguage_le_shape items h.2)

theorem choiceLanguage_le_shape : ∀ (items : List Particle), Plains items →
    choiceLanguage items ≤ (choiceShape items).whole
  | [], _ => bot_le
  | item :: items, h =>
      (add_le_add (language_le_shape item h.1) (choiceLanguage_le_shape items h.2)).trans
        (Loop.whole_le_alt _ _)

end

/-! ## What is added

The other direction, where nothing leads back that shares its state. A particle that never leads
back has a `back` of no words, and its shape then spells just its language. -/

mutual

/-- A particle that does not re-enter itself has at most one way back. -/
theorem back_le_one : ∀ (p : Particle), p.Plain → p.reenters = false → p.shape.back ≤ 1
  | .element e, h, hre => by
      refine back_occursShape_le h (Or.inr bot_le) fun hmin hmax => ?_
      rw [Particle.reenters, hmin, hmax] at hre
      exact absurd hre (by decide)
  | .any min max, h, hre => by
      refine back_occursShape_le h (Or.inr bot_le) fun hmin hmax => ?_
      rw [Particle.reenters, hmin, hmax] at hre
      exact absurd hre (by decide)
  | .sequence items min max, h, hre => by
      by_cases hmax : max = 0
      · exact back_occursShape_le h.1 (Or.inl hmax) fun _ hloop => by
          rw [hmax] at hloop
          exact absurd hloop (by decide)
      · simp only [Particle.reenters, hmax, ne_eq, not_false_eq_true, decide_true, Bool.true_and,
          Bool.or_eq_false_iff] at hre
        refine back_occursShape_le h.1 (Or.inr (back_sequence_le items h.2 hre.1)) ?_
        intro hmin hloop
        -- a required group that loops re-enters itself, unless there is nothing in it
        have hempty : items = [] := by
          have hrest := hre.2
          simp only [hmin, hloop, decide_true, Bool.and_true, Bool.not_eq_false',
            List.isEmpty_iff] at hrest
          exact hrest
        subst hempty
        exact le_rfl
  | .choice items min max, h, hre => by
      by_cases hmax : max = 0
      · exact back_occursShape_le h.1 (Or.inl hmax) fun _ hloop => by
          rw [hmax] at hloop
          exact absurd hloop (by decide)
      · simp only [Particle.reenters, hmax, ne_eq, not_false_eq_true, decide_true, Bool.true_and,
          Bool.or_eq_false_iff] at hre
        refine back_occursShape_le h.1 (Or.inr (back_choice_le items h.2 hre.1)) ?_
        intro hmin hloop
        have hempty : items = [] := by
          have hrest := hre.2
          simp only [hmin, hloop, decide_true, Bool.and_true, Bool.not_eq_false',
            List.isEmpty_iff] at hrest
          exact hrest
        subst hempty
        exact bot_le
  | .all _ _ _, h, _ => h.elim

theorem back_sequence_le : ∀ (items : List Particle), Plains items → headReenters items = false →
    (sequenceShape items).back ≤ 1
  | [], _, _ => bot_le
  | item :: _, h, hre => back_le_one item h.1 hre

theorem back_choice_le : ∀ (items : List Particle), Plains items → anyReenters items = false →
    (choiceShape items).back ≤ 1
  | [], _, _ => bot_le
  | item :: items, h, hre => by
      rw [anyReenters, Bool.or_eq_false_iff] at hre
      exact add_le (back_le_one item h.1 hre.1) (back_choice_le items h.2 hre.2)

end

theorem repetition_of_separate {items : Language Event} {m : Loop Event} {min max : Nat}
    (h : Unrolled min max) (hitems : max ≠ 0 → m.whole ≤ items)
    (hm : max ≠ 0 → min = max ∨ m.back ≤ 1) :
    (occursShape m min max).whole ≤ repetition items min max := by
  by_cases hmax : max = 0
  · subst hmax
    obtain rfl : min = 0 := Nat.le_zero.mp h.1
    rw [occursShape_zero, Loop.whole_edge_none]
    exact one_le_repetition_zero
  · exact (occursShape_le_repetition h (hm hmax)).trans (repetition_mono (hitems hmax))

mutual

theorem shape_le_language : ∀ (p : Particle), p.Plain → p.separate = true →
    p.shape.whole ≤ p.language
  | .element e, h, _ => by
      have hle := occursShape_le_repetition (m := .edge (some e.event)) h (Or.inr bot_le)
      rwa [Loop.whole_edge_some] at hle
  | .any min max, h, _ => by
      have hle := occursShape_le_repetition (m := .edge (some .wildcard)) h (Or.inr bot_le)
      rwa [Loop.whole_edge_some] at hle
  | .sequence items min max, h, hsep => by
      have hcases : max ≠ 0 → separates items = true
          ∧ (min = max ∨ headReenters items = false) := by
        intro hmax
        simpa [Particle.separate, hmax] using hsep
      exact repetition_of_separate h.1
        (fun hmax => sequenceShape_le_language items h.2 (hcases hmax).1)
        fun hmax => (hcases hmax).2.imp id (back_sequence_le items h.2)
  | .choice items min max, h, hsep => by
      have hcases : max ≠ 0 → (separates items = true
          ∧ (items.length ≤ 1 ∨ anyReenters items = false))
          ∧ (min = max ∨ anyReenters items = false) := by
        intro hmax
        simpa [Particle.separate, hmax] using hsep
      exact repetition_of_separate h.1
        (fun hmax => choiceShape_le_language items h.2 (hcases hmax).1.1 (hcases hmax).1.2)
        fun hmax => (hcases hmax).2.imp id (back_choice_le items h.2)
  | .all _ _ _, h, _ => h.elim

theorem sequenceShape_le_language : ∀ (items : List Particle), Plains items →
    separates items = true → (sequenceShape items).whole ≤ sequenceLanguage items
  | [], _, _ => by
      rw [sequenceShape, Loop.whole_edge_none]
      exact le_rfl
  | item :: items, h, hsep => by
      rw [separates, Bool.and_eq_true] at hsep
      rw [sequenceShape, Loop.whole_seq]
      exact mul_le_mul' (shape_le_language item h.1 hsep.1)
        (sequenceShape_le_language items h.2 hsep.2)

theorem choiceShape_le_language : ∀ (items : List Particle), Plains items →
    separates items = true → (items.length ≤ 1 ∨ anyReenters items = false) →
    (choiceShape items).whole ≤ choiceLanguage items
  | [], _, _, _ => by
      rw [choiceShape, Loop.whole_none]
      exact bot_le
  | [item], h, hsep, _ => by
      rw [separates, Bool.and_eq_true] at hsep
      -- a choice of one branch has its entry to itself
      have honly : item.shape.alt .none = item.shape := by
        ext1
        · exact add_zero _
        · exact add_zero _
      rw [choiceShape, choiceShape, honly]
      exact (shape_le_language item h.1 hsep.1).trans le_self_add
  | item :: other :: items, h, hsep, hre => by
      rw [separates, Bool.and_eq_true] at hsep
      have hnone : anyReenters (item :: other :: items) = false :=
        hre.resolve_left (by simp)
      rw [anyReenters, Bool.or_eq_false_iff] at hnone
      rw [choiceShape, Loop.whole_alt_eq (back_le_one item h.1 hnone.1)
        (back_choice_le _ h.2 hnone.2)]
      exact add_le_add (shape_le_language item h.1 hsep.1)
        (choiceShape_le_language _ h.2 hsep.2 (Or.inr hnone.2))

end

end Iso15118.Codegen
