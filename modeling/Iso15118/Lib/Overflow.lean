import Iso15118.Lib.Bits

/-!
# Running out of room

A sink takes only so much, and an action that writes more than there is room for fails. All else it
does may be independent of the room: it is **`Oblivious`** if its bits and its result can be said
without knowing how large the sink is, with one exception, that they do not fit. What it does is
then one fact about a sink without a limit, **`Emits`**; and running it again, into more room, is
either as it was or gets further.

Such actions compose (**`Oblivious.bind`**), whatever they do after a failure or not. Of an action
that does not fail in a large sink it is enough to say how large: that is **`Affords`**.
-/

namespace Iso15118.Lib

open Sink

/-- A sink without a limit: what has been written, and what writing has no business with. -/
structure Unlimited (φ : Type) where
  bits : List Bool
  frame : φ

/-- An action has ended with `out`, in the state `s`. -/
def resultIn {ε σ α : Type} (out : Except ε α) (s : σ) : EStateM.Result ε σ α :=
  match out with
  | .ok a => .ok a s
  | .error e => .error e s

/-- What an action has ended with. -/
def resultOut {ε σ α : Type} : EStateM.Result ε σ α → Except ε α
  | .ok a _ => .ok a
  | .error e _ => .error e

/-- The state it has left. -/
def resultState {ε σ α : Type} : EStateM.Result ε σ α → σ
  | .ok _ s => s
  | .error _ s => s

@[simp] theorem resultOut_in {ε σ α : Type} (out : Except ε α) (s : σ) :
    resultOut (resultIn out s) = out := by
  cases out <;> rfl

@[simp] theorem resultState_in {ε σ α : Type} (out : Except ε α) (s : σ) :
    resultState (resultIn out s) = s := by
  cases out <;> rfl

section Overflow

variable {σ ε α β : Type} [Sink σ]

/-- How much a sink can hold. -/
def capacity (s : σ) : Nat := (written s).length + room s

/-- What the limited sink holds is what the unlimited one does. -/
structure Tracks (s : σ) (t : Unlimited (Frame σ)) : Prop where
  bits : written s = t.bits
  frame : frame s = t.frame

theorem Tracks.length_le {s : σ} {t : Unlimited (Frame σ)} (h : Tracks s t) :
    t.bits.length ≤ capacity s := by
  rw [← h.bits]
  exact Nat.le_add_right _ _

/-- Without a limit the action gets from `t` to `t'` and ends with `out`. In a sink it does the same
if there is room for all of it, and fails with `full` if not. -/
structure Emits (full : ε) (m : EStateM ε σ α) (t t' : Unlimited (Frame σ)) (out : Except ε α) :
    Prop where
  grows : t.bits.length ≤ t'.bits.length
  other : out ≠ .error full
  fits : ∀ s, Tracks s t → t'.bits.length ≤ capacity s →
    ∃ s', m s = resultIn out s' ∧ Tracks s' t' ∧ capacity s' = capacity s
  overflows : ∀ s, Tracks s t → capacity s < t'.bits.length →
    ∃ s', m s = .error full s' ∧ capacity s' = capacity s

/-- The sink is as large as it was, however the action ends. -/
theorem Emits.capacity_eq {full : ε} {m : EStateM ε σ α} {t t' : Unlimited (Frame σ)}
    {out : Except ε α} (h : Emits full m t t' out) {s : σ} (hs : Tracks s t) :
    capacity (resultState (m s)) = capacity s := by
  rcases Nat.lt_or_ge (capacity s) t'.bits.length with hfull | hroom
  · obtain ⟨s', hm, hcap⟩ := h.overflows s hs hfull
    rw [hm]
    exact hcap
  · obtain ⟨s', hm, -, hcap⟩ := h.fits s hs hroom
    rw [hm, resultState_in]
    exact hcap

/-- What the action does it does in any sink, but for the limit. -/
def Oblivious (full : ε) (m : EStateM ε σ α) : Prop := ∀ t, ∃ t' out, Emits full m t t' out

variable {full : ε} {m : EStateM ε σ α} {k : α → EStateM ε σ β}
  {t t₁ t₂ : Unlimited (Frame σ)}

/-! ## One after the other

The bits of the second action come behind those of the first. Where there is too little room,
either the first one fails already, or it fits and the second one fails. -/

/-- One action after another emits what the first does and then what the second does. -/
theorem Emits.bind {a : α} {out : Except ε β} (h : Emits full m t t₁ (.ok a))
    (h' : Emits full (k a) t₁ t₂ out) : Emits full (m >>= k) t t₂ out := by
  refine ⟨h.grows.trans h'.grows, h'.other, fun s hs hroom => ?_, fun s hs hfull => ?_⟩
  · obtain ⟨s₁, hm, hs₁, hcap₁⟩ := h.fits s hs (h'.grows.trans hroom)
    obtain ⟨s₂, hk, hs₂, hcap₂⟩ := h'.fits s₁ hs₁ (hcap₁ ▸ hroom)
    refine ⟨s₂, ?_, hs₂, hcap₂.trans hcap₁⟩
    show EStateM.bind m k s = _
    rw [EStateM.bind, hm]
    exact hk
  · rcases Nat.lt_or_ge (capacity s) t₁.bits.length with hearly | hlate
    · -- the first one does not get to its end
      obtain ⟨s₁, hm, hcap₁⟩ := h.overflows s hs hearly
      refine ⟨s₁, ?_, hcap₁⟩
      show EStateM.bind m k s = _
      rw [EStateM.bind, hm]
    · obtain ⟨s₁, hm, hs₁, hcap₁⟩ := h.fits s hs hlate
      obtain ⟨s₂, hk, hcap₂⟩ := h'.overflows s₁ hs₁ (hcap₁ ▸ hfull)
      refine ⟨s₂, ?_, hcap₂.trans hcap₁⟩
      show EStateM.bind m k s = _
      rw [EStateM.bind, hm]
      exact hk

/-- After a failure nothing more is done. -/
theorem Emits.bind_error {e : ε} (h : Emits full m t t₁ (.error e)) :
    Emits full (m >>= k) t t₁ (.error e) := by
  refine ⟨h.grows, fun heq => h.other (by cases heq; rfl), fun s hs hroom => ?_,
    fun s hs hfull => ?_⟩
  · obtain ⟨s₁, hm, hs₁, hcap₁⟩ := h.fits s hs hroom
    refine ⟨s₁, ?_, hs₁, hcap₁⟩
    show EStateM.bind m k s = _
    rw [EStateM.bind, hm]
    rfl
  · obtain ⟨s₁, hm, hcap₁⟩ := h.overflows s hs hfull
    refine ⟨s₁, ?_, hcap₁⟩
    show EStateM.bind m k s = _
    rw [EStateM.bind, hm]

theorem Oblivious.bind (h : Oblivious full m) (h' : ∀ a, Oblivious full (k a)) :
    Oblivious full (m >>= k) := by
  intro t
  obtain ⟨t₁, out, hm⟩ := h t
  cases out with
  | error e => exact ⟨t₁, _, hm.bind_error⟩
  | ok a =>
    obtain ⟨t₂, out, hk⟩ := h' a t₁
    exact ⟨t₂, out, hm.bind hk⟩

/-! ## Without writing

What only looks at the frame or changes it needs no room. -/

/-- What changes the frame alone. -/
theorem Emits.of_frame {f : Frame σ} {out : Except ε α} (hother : out ≠ .error full)
    (h : ∀ s, Tracks s t →
      ∃ s', m s = resultIn out s' ∧ written s' = written s ∧ room s' = room s ∧ frame s' = f) :
    Emits full m t ⟨t.bits, f⟩ out := by
  refine ⟨le_rfl, hother, fun s hs _ => ?_, fun s hs hfull => ?_⟩
  · obtain ⟨s', hm, hwritten, hroom, hframe⟩ := h s hs
    refine ⟨s', hm, ⟨hwritten.trans hs.bits, hframe⟩, ?_⟩
    unfold capacity
    rw [hwritten, hroom]
  · exact absurd hs.length_le (Nat.not_le.mpr hfull)

theorem Oblivious.pure (a : α) : Oblivious full (Pure.pure a : EStateM ε σ α) := fun t =>
  ⟨_, .ok a, Emits.of_frame (fun h => by cases h) fun s hs => ⟨s, rfl, rfl, rfl, hs.frame⟩⟩

theorem Oblivious.throw {e : ε} (h : e ≠ full) :
    Oblivious full (MonadExcept.throw e : EStateM ε σ α) := fun t =>
  ⟨_, .error e, Emits.of_frame (fun heq => h (by cases heq; rfl)) fun s hs =>
    ⟨s, rfl, rfl, rfl, hs.frame⟩⟩

/-- What follows may look at the frame of the state. -/
theorem Oblivious.get {k : σ → EStateM ε σ α}
    (h : ∀ f, ∃ m, Oblivious full m ∧ ∀ s, frame s = f → k s = m) :
    Oblivious full (MonadState.get >>= k) := by
  intro t
  obtain ⟨m, hm, hsame⟩ := h t.frame
  obtain ⟨t', out, hemits⟩ := hm t
  have heq : ∀ s : σ, frame s = t.frame → (MonadState.get >>= k) s = m s := fun s hs =>
    congrFun (hsame s hs) s
  refine ⟨t', out, hemits.grows, hemits.other, fun s hs hroom => ?_, fun s hs hfull => ?_⟩
  · rw [heq s hs.frame]
    exact hemits.fits s hs hroom
  · rw [heq s hs.frame]
    exact hemits.overflows s hs hfull

/-! ## With enough room

How much room an action needs, from a given frame. Needs add up, where the bits themselves are of
no interest. -/

/-- From the frame `f` the action ends with `a` and the frame `f'` where there is room for `need`
bits, and takes as many. -/
def Affords (m : EStateM ε σ α) (f f' : Frame σ) (a : α) (need : Nat) : Prop :=
  ∀ s, frame s = f → need ≤ room s →
    ∃ s', m s = .ok a s' ∧ frame s' = f' ∧ room s = room s' + need

theorem Affords.pure {f : Frame σ} (a : α) :
    Affords (Pure.pure a : EStateM ε σ α) f f a 0 :=
  fun s hf _ => ⟨s, rfl, hf, rfl⟩

/-- The needs of two actions add up. -/
theorem Affords.bind {f f₁ f₂ : Frame σ} {a : α} {b : β} {need need' : Nat}
    (h : Affords m f f₁ a need) (h' : Affords (k a) f₁ f₂ b need') :
    Affords (m >>= k) f f₂ b (need + need') := by
  intro s hf hroom
  obtain ⟨s₁, hm, hf₁, hroom₁⟩ := h s hf (by omega)
  obtain ⟨s₂, hk, hf₂, hroom₂⟩ := h' s₁ hf₁ (by omega)
  exact ⟨s₂, bind_ok.mpr ⟨a, s₁, hm, hk⟩, hf₂, by omega⟩

/-- What is written takes its own length. -/
theorem Affords.of_writes {m : EStateM ε σ Unit} {f f' : Frame σ} {bits : List Bool}
    (h : Writes full m f f' bits) : Affords m f f' () bits.length := by
  intro s hf hroom
  obtain ⟨s', hm, -, hleft, hf'⟩ := (h s hf).1 hroom
  exact ⟨s', hm, hf', hleft⟩

end Overflow

end Iso15118.Lib
