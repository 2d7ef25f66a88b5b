import Mathlib.Computability.Language

/-!
# Words in blocks

A word may be made of blocks: so many letters out of one list, then so many out of another. What may
come next, and what is left after it, can be read off the blocks without looking ahead as long as no
letter is in two of them.

* **`Block.offers`** — the letters that may come next, in the order of the blocks;
* **`Block.step`**, **`Block.after`** — the blocks that are left behind a letter, and behind a word;
* **`append_mem_content`** — what is left is what may follow;
* **`mem_offers_iff`** — what is offered is what some word goes on with.
-/

namespace Iso15118.Lib

universe u

variable {α : Type u}

/-- At least `min` letters out of a list, and no more than `max` if there is such a bound. -/
structure Block (α : Type u) where
  letters : List α
  min : Nat
  max : Option Nat
  deriving DecidableEq, Repr

namespace Block

/-- One occurrence later. -/
def next (b : Block α) : Block α :=
  { b with min := b.min - 1, max := b.max.map (· - 1) }

/-- So many occurrences later. -/
def later (b : Block α) (n : Nat) : Block α :=
  { b with min := b.min - n, max := b.max.map (· - n) }

/-- The word of so many occurrences, by where their letters are in the list. -/
def word (b : Block α) (places : List Nat) : List α := places.filterMap (b.letters[·]?)

/-- The words of one block. -/
def words (b : Block α) : Language α :=
  {w | b.min ≤ w.length ∧ (∀ m ∈ b.max, w.length ≤ m) ∧ ∀ a ∈ w, a ∈ b.letters}

/-- One letter out of a list. -/
def one (letters : List α) : Language α := {w | ∃ a ∈ letters, w = [a]}

/-- A block that has words. -/
structure Sound (b : Block α) : Prop where
  letters : b.letters ≠ []
  bounds : ∀ m ∈ b.max, b.min ≤ m

/-- The words of blocks one after another. -/
def content : List (Block α) → Language α
  | [] => 1
  | b :: bs => b.words * content bs

/-- The letters of blocks, in their order. -/
def alphabet (bs : List (Block α)) : List α := bs.flatMap letters

/-- The letters that may come next. -/
def offers : List (Block α) → List α
  | [] => []
  | b :: bs => (if b.max = some 0 then [] else b.letters) ++ if b.min = 0 then offers bs else []

/-- Whether nothing more need come. -/
def ends (bs : List (Block α)) : Bool := bs.all fun b => b.min = 0

section Step

variable [DecidableEq α]

/-- The blocks that are left behind a letter. -/
def step : List (Block α) → α → Option (List (Block α))
  | [], _ => none
  | b :: bs, a =>
      if a ∈ b.letters ∧ b.max ≠ some 0 then some (b.next :: bs)
      else if b.min = 0 then step bs a
      else none

/-- The blocks that are left behind a word. -/
def after (bs : List (Block α)) : List α → Option (List (Block α))
  | [] => some bs
  | a :: w => (step bs a).bind fun rest => after rest w

end Step

/-! ## One block

The words of a block are the powers of its alphabet between its bounds. A word that has begun
goes on as a word of the block with one occurrence fewer to come, which is `Block.next`. -/

section One

variable {b : Block α} {a : α} {w : List α}

theorem nil_mem_words : [] ∈ b.words ↔ b.min = 0 := by
  constructor
  · exact fun h => Nat.le_zero.mp h.1
  · exact fun h => ⟨h.le, fun m _ => Nat.zero_le m, fun a h => by cases h⟩

/-- A word of a block begins with one of its letters, while there are occurrences left, and goes on
in what remains of it. -/
theorem cons_mem_words :
    a :: w ∈ b.words ↔ (a ∈ b.letters ∧ b.max ≠ some 0) ∧ w ∈ b.next.words := by
  constructor
  · rintro ⟨hmin, hmax, hall⟩
    rw [List.length_cons] at hmin
    refine ⟨⟨hall a List.mem_cons_self, fun hzero => ?_⟩, ?_, fun m hm => ?_,
      fun c hc => hall c (List.mem_cons_of_mem _ hc)⟩
    · exact absurd (hmax 0 hzero) (Nat.not_succ_le_zero _)
    · show b.min - 1 ≤ w.length
      omega
    · obtain ⟨n, hn, rfl⟩ := Option.map_eq_some_iff.mp hm
      have hle := hmax n hn
      rw [List.length_cons] at hle
      omega
  · rintro ⟨⟨ha, hzero⟩, hmin, hmax, hall⟩
    have hmin' : b.min - 1 ≤ w.length := hmin
    refine ⟨?_, fun m hm => ?_, fun c hc => ?_⟩
    · rw [List.length_cons]
      omega
    · have hle : w.length ≤ m - 1 := hmax (m - 1) (Option.map_eq_some_iff.mpr ⟨m, hm, rfl⟩)
      have hpos : m ≠ 0 := fun h => hzero (h ▸ hm)
      rw [List.length_cons]
      omega
    · rcases List.mem_cons.mp hc with rfl | hc
      · exact ha
      · exact hall c hc

/-- So many letters one after another. -/
theorem mem_pow_letters {letters : List α} {n : Nat} :
    w ∈ one letters ^ n
      ↔ w.length = n ∧ ∀ a ∈ w, a ∈ letters := by
  induction n generalizing w with
  | zero =>
    rw [pow_zero]
    constructor
    · intro h
      obtain rfl : w = [] := h
      exact ⟨rfl, fun a ha => by cases ha⟩
    · exact fun h => List.length_eq_zero_iff.mp h.1
  | succ n ih =>
    rw [pow_succ']
    constructor
    · rintro ⟨u, ⟨a, ha, rfl⟩, v, hv, rfl⟩
      obtain ⟨hlength, hall⟩ := ih.mp hv
      refine ⟨congrArg Nat.succ hlength, fun c hc => ?_⟩
      rcases List.mem_cons.mp hc with rfl | hc
      · exact ha
      · exact hall c hc
    · rintro ⟨hlength, hall⟩
      obtain ⟨a, v, rfl⟩ := List.exists_cons_of_length_eq_add_one hlength
      have hv := ih.mpr ⟨Nat.succ.inj hlength, fun c hc => hall c (List.mem_cons_of_mem _ hc)⟩
      exact ⟨[a], ⟨a, hall a List.mem_cons_self, rfl⟩, v, hv, rfl⟩

theorem Sound.next (h : b.Sound) : b.next.Sound := by
  refine ⟨h.letters, fun m hm => ?_⟩
  obtain ⟨n, hn, rfl⟩ := Option.map_eq_some_iff.mp hm
  exact Nat.sub_le_sub_right (h.bounds n hn) 1

theorem later_zero (b : Block α) : b.later 0 = b := by
  unfold later
  simp

theorem next_later (b : Block α) (n : Nat) : (b.later n).next = b.later (n + 1) := by
  unfold later next
  rw [Option.map_map]
  rfl

theorem word_cons {b : Block α} {i : Nat} {a : α} (h : b.letters[i]? = some a)
    (places : List Nat) : b.word (i :: places) = a :: b.word places := by
  rw [word, List.filterMap_cons_some h]
  rfl

/-- A word of letters is the word of their places. -/
theorem word_idxOf [DecidableEq α] {b : Block α} {w : List α} (h : ∀ a ∈ w, a ∈ b.letters) :
    b.word (w.map b.letters.idxOf) = w := by
  induction w with
  | nil => rfl
  | cons a w ih =>
    have hlt := List.idxOf_lt_length_of_mem (h a List.mem_cons_self)
    have ha : b.letters[b.letters.idxOf a]? = some a := by
      rw [List.getElem?_eq_getElem hlt, List.getElem_idxOf]
    rw [List.map_cons, word_cons ha, ih fun c hc => h c (List.mem_cons_of_mem _ hc)]

theorem Sound.exists_words (h : b.Sound) : ∃ w, w ∈ b.words := by
  obtain ⟨a, ha⟩ := List.exists_mem_of_ne_nil _ h.letters
  refine ⟨List.replicate b.min a, ?_, fun m hm => ?_, fun c hc => ?_⟩
  · rw [List.length_replicate]
  · rw [List.length_replicate]
    exact h.bounds m hm
  · rw [List.eq_of_mem_replicate hc]
    exact ha

end One

/-! ## Blocks one after another

A word of several blocks is a word of the first and then a word of the rest. As no letter is in
two blocks, the letters of a word tell where one block stops and the next begins. -/

section Content

variable {b : Block α} {bs : List (Block α)} {a : α} {w : List α}

@[simp]
theorem alphabet_cons : alphabet (b :: bs) = b.letters ++ alphabet bs := List.flatMap_cons

@[simp]
theorem alphabet_append (bs cs : List (Block α)) :
    alphabet (bs ++ cs) = alphabet bs ++ alphabet cs := List.flatMap_append

theorem content_append (bs cs : List (Block α)) :
    content (bs ++ cs) = content bs * content cs := by
  induction bs with
  | nil => exact (one_mul _).symm
  | cons b bs ih =>
    show b.words * content (bs ++ cs) = b.words * content bs * content cs
    rw [ih, mul_assoc]

theorem nil_mem_content : [] ∈ content bs ↔ ends bs = true := by
  induction bs with
  | nil => exact ⟨fun _ => rfl, fun _ => Set.mem_singleton _⟩
  | cons b bs ih =>
    have hends : ends (b :: bs) = true ↔ b.min = 0 ∧ ends bs = true := by simp [ends]
    rw [hends, ← ih, ← nil_mem_words]
    constructor
    · rintro ⟨u, hu, v, hv, huv⟩
      obtain ⟨rfl, rfl⟩ := List.append_eq_nil_iff.mp huv
      exact ⟨hu, hv⟩
    · exact fun h => ⟨[], h.1, [], h.2, rfl⟩

/-- Words are made of the letters of the blocks. -/
theorem mem_alphabet (hw : w ∈ content bs) (ha : a ∈ w) : a ∈ alphabet bs := by
  induction bs generalizing w with
  | nil =>
    obtain rfl : w = [] := hw
    cases ha
  | cons b bs ih =>
    obtain ⟨u, hu, v, hv, rfl⟩ := hw
    rw [alphabet_cons, List.mem_append]
    rcases List.mem_append.mp ha with ha | ha
    · exact .inl (hu.2.2 a ha)
    · exact .inr (ih hv ha)

theorem exists_content (h : ∀ b ∈ bs, b.Sound) : ∃ w, w ∈ content bs := by
  induction bs with
  | nil => exact ⟨[], Set.mem_singleton _⟩
  | cons b bs ih =>
    obtain ⟨u, hu⟩ := (h b List.mem_cons_self).exists_words
    obtain ⟨v, hv⟩ := ih fun c hc => h c (List.mem_cons_of_mem _ hc)
    exact ⟨u ++ v, u, hu, v, hv, rfl⟩

/-- What is offered is in the order of the blocks. -/
theorem offers_sublist (bs : List (Block α)) : (offers bs).Sublist (alphabet bs) := by
  induction bs with
  | nil => exact List.Sublist.refl _
  | cons b bs ih =>
    rw [alphabet_cons]
    refine List.Sublist.append ?_ ?_
    · split
      · exact List.nil_sublist _
      · exact List.Sublist.refl _
    · split
      · exact ih
      · exact List.nil_sublist _

end Content

/-! ## What is left

The same without looking ahead: `step` says what blocks are left behind one letter and `after`
what is left behind a word. `cons_mem_content` is the one fact about `step` that the others are
derived from, by induction on the word. -/

section Left

variable [DecidableEq α] {b : Block α} {bs rest : List (Block α)} {a : α} {v w : List α}

theorem step_head (ha : a ∈ b.letters) (hmax : b.max ≠ some 0) :
    step (b :: bs) a = some (b.next :: bs) := if_pos ⟨ha, hmax⟩

theorem step_tail (ha : a ∉ b.letters) (hmin : b.min = 0) : step (b :: bs) a = step bs a := by
  rw [step, if_neg fun h => ha h.1, if_pos hmin]

/-- Blocks are left from some block on. -/
theorem alphabet_step (h : step bs a = some rest) : alphabet rest <:+ alphabet bs := by
  induction bs with
  | nil => cases h
  | cons b bs ih =>
    rw [step] at h
    split at h
    · cases h
      exact List.suffix_rfl
    · split at h
      · exact (ih h).trans (alphabet_cons ▸ List.suffix_append _ _)
      · cases h

theorem sound_step (hsound : ∀ b ∈ bs, b.Sound) (h : step bs a = some rest) :
    ∀ b ∈ rest, b.Sound := by
  induction bs with
  | nil => cases h
  | cons b bs ih =>
    rw [step] at h
    split at h
    · cases h
      intro c hc
      rcases List.mem_cons.mp hc with rfl | hc
      · exact (hsound b List.mem_cons_self).next
      · exact hsound c (List.mem_cons_of_mem _ hc)
    · split at h
      · exact ih (fun c hc => hsound c (List.mem_cons_of_mem _ hc)) h
      · cases h

/-- Behind a letter comes what the blocks that are left are made of. -/
theorem cons_mem_content (hdistinct : (alphabet bs).Nodup) :
    a :: w ∈ content bs ↔ ∃ rest, step bs a = some rest ∧ w ∈ content rest := by
  induction bs with
  | nil =>
    constructor
    · intro h
      cases (show a :: w = [] from h)
    · rintro ⟨rest, h, -⟩
      cases h
  | cons b bs ih =>
    rw [alphabet_cons] at hdistinct
    have htail := ih (List.nodup_append.mp hdistinct).2.1
    -- the letter is the first of this block, or this block has none
    have hsplit : a :: w ∈ content (b :: bs)
        ↔ ((a ∈ b.letters ∧ b.max ≠ some 0) ∧ w ∈ content (b.next :: bs))
          ∨ (b.min = 0 ∧ a :: w ∈ content bs) := by
      constructor
      · rintro ⟨u, hu, v, hv, huv⟩
        rcases List.cons_eq_append_iff.mp huv.symm with ⟨rfl, rfl⟩ | ⟨u, rfl, rfl⟩
        · exact .inr ⟨nil_mem_words.mp hu, hv⟩
        · obtain ⟨ha, hu⟩ := cons_mem_words.mp hu
          exact .inl ⟨ha, u, hu, v, hv, rfl⟩
      · rintro (⟨ha, u, hu, v, hv, rfl⟩ | ⟨hmin, h⟩)
        · exact ⟨a :: u, cons_mem_words.mpr ⟨ha, hu⟩, v, hv, rfl⟩
        · exact ⟨[], nil_mem_words.mpr hmin, a :: w, h, rfl⟩
    -- the letters of the blocks behind are others
    have hapart : a ∈ b.letters → ¬ a :: w ∈ content bs := by
      intro ha h
      have hin := mem_alphabet h List.mem_cons_self
      exact (List.nodup_append.mp hdistinct).2.2 a ha a hin rfl
    rw [hsplit, step]
    -- either the word goes on in this block
    by_cases hhead : a ∈ b.letters ∧ b.max ≠ some 0
    · rw [if_pos hhead]
      constructor
      · rintro (⟨-, h⟩ | ⟨-, h⟩)
        · exact ⟨_, rfl, h⟩
        · exact absurd h (hapart hhead.1)
      · rintro ⟨rest, heq, h⟩
        cases heq
        exact .inl ⟨hhead, h⟩
    -- or the block has nothing for the letter, and is passed over where it may be
    · rw [if_neg hhead]
      by_cases hmin : b.min = 0
      · rw [if_pos hmin, ← htail]
        exact ⟨fun h => h.elim (fun h => absurd h.1 hhead) And.right, fun h => .inr ⟨hmin, h⟩⟩
      · rw [if_neg hmin]
        constructor
        · rintro (⟨h, -⟩ | ⟨h, -⟩)
          · exact absurd h hhead
          · exact absurd h hmin
        · rintro ⟨rest, heq, -⟩
          cases heq

/-- What is offered is what there are blocks left behind. -/
theorem mem_offers_iff : a ∈ offers bs ↔ ∃ rest, step bs a = some rest := by
  induction bs with
  | nil =>
    constructor
    · intro h
      cases h
    · rintro ⟨rest, h⟩
      cases h
  | cons b bs ih =>
    have hoffers : a ∈ offers (b :: bs)
        ↔ (a ∈ b.letters ∧ b.max ≠ some 0) ∨ (b.min = 0 ∧ a ∈ offers bs) := by
      rw [offers, List.mem_append]
      refine or_congr ?_ ?_
      · split <;> simp [*]
      · split <;> simp [*]
    rw [hoffers, ih, step]
    by_cases hhead : a ∈ b.letters ∧ b.max ≠ some 0
    · rw [if_pos hhead]
      exact ⟨fun _ => ⟨_, rfl⟩, fun _ => .inl hhead⟩
    · rw [if_neg hhead]
      by_cases hmin : b.min = 0
      · rw [if_pos hmin]
        exact ⟨fun h => h.elim (fun h => absurd h hhead) And.right, fun h => .inr ⟨hmin, h⟩⟩
      · rw [if_neg hmin]
        constructor
        · rintro (h | ⟨h, -⟩)
          · exact absurd h hhead
          · exact absurd h hmin
        · rintro ⟨rest, heq⟩
          cases heq

/-- What can be counted on behind a word. -/
theorem left_after (hdistinct : (alphabet bs).Nodup) (hsound : ∀ b ∈ bs, b.Sound)
    (h : after bs w = some rest) :
    alphabet rest <:+ alphabet bs ∧ (∀ b ∈ rest, b.Sound)
      ∧ ∀ v, w ++ v ∈ content bs ↔ v ∈ content rest := by
  induction w generalizing bs with
  | nil =>
    cases h
    exact ⟨List.suffix_rfl, hsound, fun v => Iff.rfl⟩
  | cons a w ih =>
    obtain ⟨mid, hstep, hrest⟩ := Option.bind_eq_some_iff.mp h
    have hsuffix := alphabet_step hstep
    obtain ⟨hsuffix', hsound', hwords⟩ :=
      ih (hdistinct.sublist hsuffix.sublist) (sound_step hsound hstep) hrest
    refine ⟨hsuffix'.trans hsuffix, hsound', fun v => ?_⟩
    rw [List.cons_append, cons_mem_content hdistinct, ← hwords v]
    constructor
    · rintro ⟨mid', heq, hv⟩
      cases hstep.symm.trans heq
      exact hv
    · exact fun hv => ⟨mid, hstep, hv⟩

/-- There are blocks left behind the beginning of a word. -/
theorem exists_after (hdistinct : (alphabet bs).Nodup) (h : w ++ v ∈ content bs) :
    ∃ rest, after bs w = some rest ∧ v ∈ content rest := by
  induction w generalizing bs with
  | nil => exact ⟨bs, rfl, h⟩
  | cons a w ih =>
    obtain ⟨mid, hstep, hw⟩ := (cons_mem_content hdistinct).mp h
    obtain ⟨rest, hrest, hv⟩ := ih (hdistinct.sublist (alphabet_step hstep).sublist) hw
    refine ⟨rest, ?_, hv⟩
    rw [after, hstep]
    exact hrest

theorem after_append (u w : List α) :
    after bs (u ++ w) = (after bs u).bind fun rest => after rest w := by
  induction u generalizing bs with
  | nil => rfl
  | cons a u ih =>
    show (step bs a).bind (fun rest => after rest (u ++ w)) = _
    simp only [after, Option.bind_assoc, ih]

end Left

end Block

end Iso15118.Lib
