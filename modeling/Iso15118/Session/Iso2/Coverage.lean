import Iso15118.Session.Iso2.Profile

/-!
# How far a schedule goes

`schedule::coverage` is how long the limits of a schedule stand, and what an application asks before
it waits for the vehicle to ask for a new one. Between the start of the first interval and that
instant a limit is stated at every offset, and nowhere else: **`covered_iff`**.
-/

namespace Iso15118.Session.Iso2.Schedule

open Iso15118.Lib

/-- How far past its issue the schedule states a limit. -/
def coverage (tuple : SAScheduleTuple) : Option UInt32 :=
  match scheduleSteps tuple with
  | .error _ => none
  | .ok steps => steps.getLast?.bind Step.stop

variable {tuple : SAScheduleTuple} {limits : List Step} {t : UInt32}

theorem le_saturatingAdd (a d : UInt32) : a ≤ saturatingAdd a d := by
  unfold saturatingAdd
  split
  · next h =>
    rw [UInt32.le_iff_toNat_le, UInt32.toNat_add, Nat.mod_eq_of_lt h]
    omega
  · exact le_u32Max a

/-- The last step does not stop before it starts. -/
theorem le_stop_of_mem (h : scheduleSteps tuple = .ok limits) {l : Step} (hl : l ∈ limits)
    {e : UInt32} (he : e ∈ l.stop) : l.start ≤ e := by
  rcases lt_of_mem_scheduleSteps h hl he with hlt | ⟨-, _, _, duration, -, -, -, rfl⟩
  · exact hlt.le
  · exact le_saturatingAdd l.start duration

/-- The first entry of a schedule that is read is where its first step starts. -/
theorem head?_of_scheduleSteps (h : scheduleSteps tuple = .ok limits) :
    (tuple.pMaxSchedule = [] ∧ limits = []) ∨ ∃ entry interval rest first steps,
      tuple.pMaxSchedule = entry :: rest ∧ entry.choice = .relativeTimeInterval interval
        ∧ limits = first :: steps ∧ first.start = interval.start := by
  obtain ⟨points, hpoints, rfl⟩ := scheduleSteps_eq_ok.mp h
  have heach := hpoints.each
  cases hentries : tuple.pMaxSchedule with
  | nil =>
    rw [hentries] at heach
    cases heach
    exact .inl ⟨rfl, rfl⟩
  | cons entry rest =>
    rw [hentries] at heach
    obtain ⟨point, points, ⟨duration, hchoice, -⟩, -, rfl⟩ := List.forall₂_cons_left_iff.mp heach
    exact .inr ⟨entry, _, rest, _, _, rfl, hchoice, rfl, rfl⟩

theorem coverage_eq (h : scheduleSteps tuple = .ok limits) :
    coverage tuple = limits.getLast?.bind Step.stop := by
  rw [coverage, h]

theorem pmaxAt_eq_ok (h : scheduleSteps tuple = .ok limits) (t : UInt32) :
    ∃ limit, pmaxAt tuple t = .ok limit := by
  unfold pmaxAt
  rw [h]
  exact ⟨_, rfl⟩

/-- Something is stated at `t` when the schedule has begun and is not over. -/
theorem isSome_pmaxAt_iff (h : scheduleSteps tuple = .ok limits) :
    (∃ limit, pmaxAt tuple t = .ok (some limit)) ↔
      (∃ entry interval, tuple.pMaxSchedule.head? = some entry
        ∧ entry.choice = .relativeTimeInterval interval ∧ interval.start ≤ t)
      ∧ ∀ e ∈ coverage tuple, t < e := by
  have hactive : (∃ limit, pmaxAt tuple t = .ok (some limit)) ↔ ∃ l ∈ limits, l.Active t := by
    simp only [pmaxAt_eq_some_iff h]
    constructor
    · rintro ⟨limit, l, hl, hat, -⟩
      exact ⟨l, hl, hat⟩
    · rintro ⟨l, hl, hat⟩
      exact ⟨l.power, l, hl, hat, rfl⟩
  rw [hactive, coverage_eq h]
  rcases head?_of_scheduleSteps h with ⟨hentries, rfl⟩ | ⟨entry, interval, rest, first, steps,
    hentries, hchoice, rfl, hstart⟩
  · rw [hentries]
    simp
  · have hlast : (first :: steps).getLast? = some ((first :: steps).getLast (by simp)) :=
      List.getLast?_eq_some_getLast (by simp)
    have hstop := fun e he => le_stop_of_mem h (List.mem_of_getLast? hlast) (e := e) he
    rw [(tiled_of_scheduleSteps h).exists_active_iff hlast hstop, hentries, hlast, hstart]
    constructor
    · rintro ⟨hge, hend⟩
      exact ⟨⟨entry, interval, rfl, hchoice, hge⟩, hend⟩
    · rintro ⟨⟨entry', interval', hhead, hchoice', hge⟩, hend⟩
      cases hhead
      rw [hchoice] at hchoice'
      cases hchoice'
      exact ⟨hge, hend⟩

/-- **No gap and no end but the coverage.** Of a schedule that can be read, a limit is stated at
exactly the offsets from the start of its first interval to its coverage; one that cannot be read
has no coverage and states an error at every offset. -/
theorem covered_iff (tuple : SAScheduleTuple) :
    (tuple.Readable → coverage tuple = coverageEnd tuple.pMaxSchedule
        ∧ ∀ t, ∃ limit, pmaxAt tuple t = .ok limit
          ∧ (limit.isSome = true ↔
            (∃ entry interval, tuple.pMaxSchedule.head? = some entry
              ∧ entry.choice = .relativeTimeInterval interval ∧ interval.start ≤ t)
            ∧ ∀ e ∈ coverage tuple, t < e))
      ∧ (¬ tuple.Readable → coverage tuple = none ∧ ∃ e, ∀ t, pmaxAt tuple t = .error e) := by
  cases hsteps : scheduleSteps tuple with
  -- a schedule that is not read has no coverage, and one error at every offset
  | error e =>
    have hunread : ¬ tuple.Readable := by
      intro hread
      obtain ⟨limits, hlimits⟩ := hread.exists_steps
      rw [hlimits] at hsteps
      cases hsteps
    refine ⟨fun hread => absurd hread hunread, fun _ => ⟨?_, e, fun t => ?_⟩⟩
    · rw [coverage, hsteps]
    · unfold pmaxAt
      rw [hsteps]
      rfl
  -- one that is read is laid end to end, so the last step says where it ends
  | ok limits =>
    refine ⟨fun _ => ⟨?_, fun t => ?_⟩, fun h => absurd (readable_of_scheduleSteps hsteps) h⟩
    · obtain ⟨points, hpoints, rfl⟩ := scheduleSteps_eq_ok.mp hsteps
      rw [coverage_eq hsteps]
      rcases eq_nil_or_last hpoints.each with ⟨hentries, rfl⟩ | ⟨_, _, before, point, -, rfl, -⟩
      · rw [hentries]
        rfl
      · have hlay := lay_concat (coverageEnd tuple.pMaxSchedule) before point.1 point.2
        rw [show before ++ [(point.1, point.2)] = before ++ [point] from rfl] at hlay
        rw [hlay, List.getLast?_concat]
        rfl
    · obtain ⟨limit, hlimit⟩ := pmaxAt_eq_ok hsteps t
      refine ⟨limit, hlimit, ?_⟩
      rw [← isSome_pmaxAt_iff hsteps, hlimit, Option.isSome_iff_exists]
      simp only [Except.ok.injEq]

/-- Half an hour of limits and an empty interval behind it: covered for half an hour. -/
theorem covered_iff_halfHour :
    coverage Sample.halfHour = some 1800
      ∧ ∃ limit, pmaxAt Sample.halfHour 1799 = .ok limit ∧ limit.isSome = true := by
  have hread : Sample.halfHour.Readable := by
    have hsteps : ∃ limits, scheduleSteps Sample.halfHour = .ok limits := ⟨_, rfl⟩
    obtain ⟨limits, hlimits⟩ := hsteps
    exact readable_of_scheduleSteps hlimits
  obtain ⟨hend, hcovered⟩ := (covered_iff Sample.halfHour).1 hread
  have hcoverage : coverage Sample.halfHour = some 1800 := hend.trans (by decide)
  obtain ⟨limit, hlimit, hsome⟩ := hcovered 1799
  refine ⟨hcoverage, limit, hlimit, hsome.mpr ⟨⟨_, _, rfl, rfl, by decide⟩, ?_⟩⟩
  intro e he
  rw [hcoverage] at he
  cases he
  decide

end Iso15118.Session.Iso2.Schedule
