import Iso15118.Session.Timers

/-!
# The next deadline

`Timers::next_deadline`: what a caller arms its own clock for. It is the deadline of a running timer
and no running timer has an earlier one, so to sleep until it is to miss none.
-/

namespace Iso15118.Session

namespace Instant

instance instMinInstant : Min Instant := ⟨fun t u => if t ≤ u then t else u⟩

theorem min_cases (t u : Instant) : min t u = t ∧ t ≤ u ∨ min t u = u ∧ u ≤ t := by
  show (if t ≤ u then t else u) = t ∧ t ≤ u ∨ (if t ≤ u then t else u) = u ∧ u ≤ t
  split
  · next h => exact .inl ⟨rfl, h⟩
  · next h => exact .inr ⟨rfl, UInt64.le_of_lt (UInt64.not_le.mp h)⟩

/-- Of a list and an instant the least is one of them, and none is earlier. -/
theorem foldl_min (t : Instant) (rest : List Instant) :
    rest.foldl min t ∈ t :: rest ∧ ∀ u ∈ t :: rest, rest.foldl min t ≤ u := by
  induction rest generalizing t with
  | nil =>
    refine ⟨List.mem_singleton_self t, fun u hu => ?_⟩
    rw [List.mem_singleton.mp hu]
    exact le_refl t
  | cons v rest ih =>
    obtain ⟨hmem, hle⟩ := ih (min t v)
    rw [List.foldl_cons]
    have hleast := hle (min t v) (List.mem_cons_self ..)
    rcases min_cases t v with ⟨heq, htv⟩ | ⟨heq, htv⟩
    · rw [heq] at hmem hle hleast ⊢
      refine ⟨?_, fun u hu => ?_⟩
      · rcases List.mem_cons.mp hmem with h | h
        · rw [h]
          exact List.mem_cons_self ..
        · exact List.mem_cons_of_mem _ (List.mem_cons_of_mem _ h)
      · rcases List.mem_cons.mp hu with rfl | hu
        · exact hleast
        · rcases List.mem_cons.mp hu with rfl | hu
          · exact le_trans hleast htv
          · exact hle u (List.mem_cons_of_mem _ hu)
    · rw [heq] at hmem hle hleast ⊢
      refine ⟨List.mem_cons_of_mem _ hmem, fun u hu => ?_⟩
      rcases List.mem_cons.mp hu with rfl | hu
      · exact le_trans hleast htv
      · exact hle u hu

end Instant

namespace Timers

/-- The earliest deadline of any running timer. -/
def nextDeadline (t : Timers) : Option Instant := (Timer.all.filterMap t.deadline).min?

theorem mem_deadlines {t : Timers} {d : Instant} :
    d ∈ Timer.all.filterMap t.deadline ↔ ∃ timer, t.deadline timer = some d := by
  rw [List.mem_filterMap]
  exact ⟨fun ⟨timer, _, h⟩ => ⟨timer, h⟩, fun ⟨timer, h⟩ => ⟨timer, timer.mem_all, h⟩⟩

/-- **The next deadline**: none where no timer runs, or the earliest of those that do. -/
theorem nextDeadline_cases (t : Timers) :
    (t.nextDeadline = none ∧ ∀ timer, t.deadline timer = none)
      ∨ ∃ d, t.nextDeadline = some d ∧ (∃ timer, t.deadline timer = some d)
          ∧ ∀ timer d', t.deadline timer = some d' → d ≤ d' := by
  unfold nextDeadline
  cases hdeadlines : Timer.all.filterMap t.deadline with
  | nil =>
    refine .inl ⟨rfl, fun timer => ?_⟩
    exact List.filterMap_eq_nil_iff.mp hdeadlines timer timer.mem_all
  | cons d rest =>
    obtain ⟨hmem, hle⟩ := Instant.foldl_min d rest
    rw [← hdeadlines] at hmem hle
    refine .inr ⟨_, rfl, mem_deadlines.mp hmem, fun timer d' h => ?_⟩
    exact hle d' (mem_deadlines.mpr ⟨timer, h⟩)

theorem exists_nextDeadline {t : Timers} {timer : Timer} {d : Instant}
    (h : t.deadline timer = some d) : ∃ d', t.nextDeadline = some d' ∧ d' ≤ d := by
  rcases t.nextDeadline_cases with ⟨-, hnone⟩ | ⟨d', hnext, -, hle⟩
  · rw [hnone timer] at h
    cases h
  · exact ⟨d', hnext, hle timer d h⟩

theorem deadline_of_nextDeadline {t : Timers} {d : Instant} (h : t.nextDeadline = some d) :
    ∃ timer, t.deadline timer = some d := by
  rcases t.nextDeadline_cases with ⟨hnone, -⟩ | ⟨d', hnext, hrunning, -⟩
  · rw [hnone] at h
    cases h
  · rw [hnext] at h
    cases h
    exact hrunning

/-- At its next deadline something has expired. -/
theorem expired_of_nextDeadline {t : Timers} {d : Instant} (h : t.nextDeadline = some d) :
    ∃ timer d', t.expired d = (some timer, t.disarm timer) ∧ t.deadline timer = some d' := by
  obtain ⟨timer, hd⟩ := deadline_of_nextDeadline h
  rcases t.expired_cases d with ⟨-, hdue⟩ | ⟨timer', d', hexpired, hd', -⟩
  · exact absurd (Instant.le_refl d) (hdue timer d hd)
  · exact ⟨timer', d', hexpired, hd'⟩

theorem running_le (t : Timers) : t.running ≤ 4 := List.countP_le_length

end Timers

end Iso15118.Session
