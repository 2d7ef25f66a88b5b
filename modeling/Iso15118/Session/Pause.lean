import Iso15118.Session.Iso2.Sequencer
import Iso15118.Session.Iso20.Sequencer

/-!
# Pausing with the power off

`SessionStopReq(Pause)` puts a session to sleep with the vehicle still plugged in, so neither
generation takes it while the cable is live. Both say so by listing phases: no pause out of the
cable check, the pre-charge or the charge loop. The rule itself is about the line, not about the
phase: whatever was started has been stopped.

* **`line`** — the abstract model: what the accepted requests of a run have done to the power
  line. It goes live with `PowerDeliveryReq(Start)`, cold with a stop or a standby, and it stays
  live through a renegotiation, which leaves the charge loop without stopping anything.
* **`Iso2.lined_after`**, **`Iso20.lined_after`** — the phase of either sequencer refines the
  line: it is in the charge loop exactly when the line is charging.
* **`pauses_strand_nothing_iff`** — a pause finds the line cold exactly when it does not come
  between a renegotiation out of the charge loop and the next start.
-/

namespace Iso15118.Session

open Iso15118.Lib

/-! ## The power line

The abstract model has three states and knows nothing of phases. What it says of a log is shown
once, for both generations. -/

/-- What the power line is doing: nothing, charging, or still live while the session has left
the charge loop to renegotiate. -/
inductive Line where
  | cold
  | charging
  | renegotiating
  deriving DecidableEq, Repr

section Line

variable {β : Type} (starts stops renegotiates : β → Bool)

/-- One accepted request, as the line sees it. -/
def Line.next (l : Line) (e : β) : Line :=
  if starts e then .charging
  else if stops e then .cold
  else if renegotiates e then .renegotiating
  else l

/-- The line after a log of accepted requests. -/
def line (log : List β) : Line :=
  log.foldl (Line.next starts stops renegotiates) .cold

/-- A request the charge loop allows: power is stopped by a session that has it in hand, and a
renegotiation leaves the loop without starting or stopping. -/
structure Orderly (l : Line) (e : β) : Prop where
  stop : stops e = true → l ≠ .renegotiating
  renegotiate : renegotiates e = true → l = .charging ∧ starts e = false ∧ stops e = false

variable {starts stops renegotiates}

@[simp] theorem line_nil : line starts stops renegotiates [] = .cold := rfl

@[simp] theorem line_concat (log : List β) (e : β) :
    line starts stops renegotiates (log ++ [e])
      = (line starts stops renegotiates log).next starts stops renegotiates e := by
  unfold line
  rw [List.foldl_append]
  rfl

theorem Orderly.live_starts {l : Line} {e : β} (h : Orderly starts stops renegotiates l e)
    {b : Bool} (hb : b = decide (l ≠ .cold)) :
    (if starts e then true else if stops e then false else b)
      = decide (l.next starts stops renegotiates e ≠ .cold) := by
  unfold Line.next
  split
  · rfl
  · split
    · rfl
    · split
      · next hr =>
        -- a renegotiation leaves the line as live as it found it
        rw [hb, (h.renegotiate hr).1]
        rfl
      · exact hb

theorem Orderly.live_renegotiates {l : Line} {e : β} (h : Orderly starts stops renegotiates l e)
    {b : Bool} (hb : b = decide (l = .renegotiating)) :
    (if renegotiates e then true else if starts e then false else b)
      = decide (l.next starts stops renegotiates e = .renegotiating) := by
  unfold Line.next
  split
  · next hr =>
    obtain ⟨-, hstart, hstop⟩ := h.renegotiate hr
    simp [hstart, hstop]
  · split
    · rfl
    · split
      · next hs =>
        rw [hb, decide_eq_false (h.stop hs)]
        rfl
      · exact hb

/-- **The line reads the log.** Along an orderly log, power is left on exactly while the line is
not cold, and a renegotiation is left open exactly while the line is renegotiating. -/
theorem live_of_orderly {log : List β}
    (h : Along (fun before e => Orderly starts stops renegotiates
      (line starts stops renegotiates before) e) log) :
    live starts stops log = decide (line starts stops renegotiates log ≠ .cold)
      ∧ live renegotiates starts log
          = decide (line starts stops renegotiates log = .renegotiating) := by
  refine h.induction
    (motive := fun xs => live starts stops xs = decide (line starts stops renegotiates xs ≠ .cold)
      ∧ live renegotiates starts xs
          = decide (line starts stops renegotiates xs = .renegotiating))
    ⟨rfl, rfl⟩ fun xs e ih he => ?_
  rw [live_concat, live_concat, line_concat]
  exact ⟨he.live_starts ih.1, he.live_renegotiates ih.2⟩

/-- Outside the charge loop, everything started has been stopped exactly when no renegotiation
is left open. -/
theorem answered_iff_of_orderly {log : List β}
    (h : Along (fun before e => Orderly starts stops renegotiates
      (line starts stops renegotiates before) e) log)
    (hline : line starts stops renegotiates log ≠ .charging) :
    Answered starts stops log ↔ Answered renegotiates starts log := by
  obtain ⟨hpower, hopen⟩ := live_of_orderly h
  rw [← live_eq_false_iff, ← live_eq_false_iff, hpower, hopen]
  cases hl : line starts stops renegotiates log with
  | cold => simp
  | charging => exact absurd hl hline
  | renegotiating => simp

end Line

end Iso15118.Session

/-! ## ISO 15118-2

The sequencer's phase and the line move together, arrow by arrow. A pause is taken outside the
live phases, so what it finds is a question about the line. -/

namespace Iso15118.Session.Iso2

open Iso15118.Lib

/-- The request is `PowerDeliveryReq(Start)`. -/
def Accepted.starts (e : Accepted) : Bool := e.request = .powerDelivery .start

/-- The request is `PowerDeliveryReq(Stop)`. -/
def Accepted.stops (e : Accepted) : Bool := e.request = .powerDelivery .stop

/-- The request takes the session from the charge loop back to parameter discovery. -/
def Accepted.renegotiates (e : Accepted) : Bool :=
  e.before.phase = .charging ∧ e.next = .chargeParameters

/-- The line after a log of accepted requests. -/
abbrev lineOf (log : List Accepted) : Line :=
  line Accepted.starts Accepted.stops Accepted.renegotiates log

/-- The sequencer's phase refines the line: until the session is over, it is in the charge loop
exactly when the line is charging, and the log is orderly. -/
structure Lined (s : Sequencer) (log : List Accepted) : Prop where
  charging : s.phase ≠ .stopped → s.phase ≠ .paused →
    (s.phase = .charging ↔ lineOf log = .charging)
  orderly : Along (fun before e => Orderly Accepted.starts Accepted.stops Accepted.renegotiates
    (lineOf before) e) log

/-- What an arrow does to the line: start it, stop it out of the charge loop, leave the loop to
renegotiate, or none of these — and then it neither enters nor leaves the loop, unless it ends
the session. -/
theorem Sequencer.Arrow.power {s : Sequencer} {r : Request} {p : Phase} (h : s.Arrow r p) :
    (r = .powerDelivery .start ∧ p = .charging)
      ∨ (r = .powerDelivery .stop ∧ s.phase = .charging ∧ p = .powerStopped)
      ∨ (s.phase = .charging ∧ p = .chargeParameters)
          ∧ r ≠ .powerDelivery .start ∧ r ≠ .powerDelivery .stop
      ∨ (p = .stopped ∨ p = .paused ∨ (s.phase = .charging ↔ p = .charging))
          ∧ ¬ (s.phase = .charging ∧ p = .chargeParameters)
          ∧ r ≠ .powerDelivery .start ∧ r ≠ .powerDelivery .stop := by
  cases h with
  | forward _ hstep =>
    cases hstep with
    | startDirectly _ _ => exact .inl ⟨rfl, rfl⟩
    | startAfterPreCharge _ => exact .inl ⟨rfl, rfl⟩
    | stopPower hp => exact .inr (.inl ⟨rfl, hp, rfl⟩)
    | renegotiate hp => exact .inr (.inr (.inl ⟨⟨hp, rfl⟩, by simp⟩))
    | rediscoverCharging _ hp _ _ => exact .inr (.inr (.inl ⟨⟨hp, rfl⟩, by simp⟩))
    | _ => grind
  | terminate _ => simp
  | pause _ _ => simp

/-- A step is orderly, and moves the line as it moves the phase. -/
theorem Lined.advance {s : Sequencer} {log : List Accepted} {r : Request} {p : Phase}
    (h : Lined s log) (harrow : s.Arrow r p) :
    Lined (s.advance r p) (log ++ [⟨s, r, p⟩]) := by
  have hline := h.charging harrow.not_over.1 harrow.not_over.2
  -- power is started, stopped, renegotiated, or left as it is
  rcases harrow.power with ⟨rfl, rfl⟩ | ⟨rfl, hp, rfl⟩ | ⟨⟨hp, rfl⟩, hr⟩ | ⟨hp, hreneg, hr⟩
  · refine ⟨fun _ _ => ?_, (along_concat _ _).mpr ⟨h.orderly, ?_, ?_⟩⟩
    · simp [Line.next, Accepted.starts]
    · simp [Accepted.stops]
    · simp [Accepted.renegotiates]
  · refine ⟨fun _ _ => ?_, (along_concat _ _).mpr ⟨h.orderly, ?_, ?_⟩⟩
    · simp [Line.next, Accepted.starts, Accepted.stops]
    · simp [hline.mp hp]
    · simp [Accepted.renegotiates]
  · refine ⟨fun _ _ => ?_, (along_concat _ _).mpr ⟨h.orderly, ?_, ?_⟩⟩
    · simp [Line.next, Accepted.starts, Accepted.stops, Accepted.renegotiates,
        hp, hr]
    · simp [Accepted.stops, hr]
    · simp [Accepted.starts, Accepted.stops, hline.mp hp, hr]
  · refine ⟨fun hstopped hpaused => ?_, (along_concat _ _).mpr ⟨h.orderly, ?_, ?_⟩⟩
    · have hiff : s.phase = .charging ↔ p = .charging :=
        (hp.resolve_left hstopped).resolve_left hpaused
      -- nothing was said about power: the line is what it was
      have hkeep : lineOf (log ++ [⟨s, r, p⟩]) = lineOf log := by
        simp only [line_concat, Line.next, Accepted.starts, Accepted.stops, Accepted.renegotiates,
          decide_eq_true_eq, if_neg hr.1, if_neg hr.2, if_neg hreneg]
      rw [hkeep, ← hline, hiff]
      rfl
    · simp [Accepted.stops, hr]
    · simp [Accepted.renegotiates, hreneg]

/-- The phase refines the line after every run. -/
theorem lined_after (security : Security) (calls : List Call) :
    Lined (Sequencer.after security calls) (Sequencer.accepted security calls) := by
  induction calls using List.reverseRecOn with
  | nil => exact ⟨fun _ _ => by simp [Sequencer.new], along_nil⟩
  | append_singleton xs c ih =>
    rw [Sequencer.after_concat, Sequencer.accepted_concat]
    rcases Sequencer.call_cases (Sequencer.after security xs) c with
      ⟨hcall, hlog⟩ | ⟨hcall, hlog⟩ | ⟨r, p, rfl, harrow, hcall, hlog⟩
    · rw [hcall, hlog, List.append_nil]
      exact ih
    · rw [hcall, hlog, List.append_nil]
      exact ⟨ih.charging, ih.orderly⟩
    · rw [hcall, hlog]
      exact ih.advance harrow

/-- At every pause the run has accepted: each accepted `PowerDeliveryReq(Start)` before it was
followed by an accepted `PowerDeliveryReq(Stop)`, and the session was not in the cable check or
the pre-charge. -/
def PausesCold (security : Security) (calls : List Call) : Prop :=
  Along (fun before c => c = .accept (.sessionStop .pause) →
    (Sequencer.after security before).permits (.sessionStop .pause) = true →
    Answered Accepted.starts Accepted.stops (Sequencer.accepted security before)
      ∧ (Sequencer.after security before).phase ≠ .cableCheck
      ∧ (Sequencer.after security before).phase ≠ .preCharge) calls

/-- No pause the run has accepted comes between a renegotiation out of the charge loop and the
next accepted `PowerDeliveryReq(Start)`. -/
def PausesSettled (security : Security) (calls : List Call) : Prop :=
  Along (fun before c => c = .accept (.sessionStop .pause) →
    (Sequencer.after security before).permits (.sessionStop .pause) = true →
    Answered Accepted.renegotiates Accepted.starts (Sequencer.accepted security before)) calls

/-- A pause that is accepted finds the session outside the live phases, and not over. -/
theorem Sequencer.not_live_of_permits_pause {s : Sequencer}
    (h : s.permits (.sessionStop .pause) = true) :
    ¬ Phase.Closed s.phase ∧ ¬ Phase.Live s.phase := by
  obtain ⟨p, hp⟩ := Option.isSome_iff_exists.mp h
  cases arrow_of_nextPhase hp with
  | forward _ hstep => cases hstep
  | pause hclosed hlive => exact ⟨hclosed, hlive⟩

/-- At an accepted pause, what was started has been stopped exactly when no renegotiation is
left open. -/
theorem pause_answered_iff {security : Security} {before : List Call}
    (hpermits : (Sequencer.after security before).permits (.sessionStop .pause) = true) :
    (Answered Accepted.starts Accepted.stops (Sequencer.accepted security before)
      ∧ (Sequencer.after security before).phase ≠ .cableCheck
      ∧ (Sequencer.after security before).phase ≠ .preCharge)
    ↔ Answered Accepted.renegotiates Accepted.starts (Sequencer.accepted security before) := by
  obtain ⟨hclosed, hlive⟩ := Sequencer.not_live_of_permits_pause hpermits
  have hinv := lined_after security before
  have hline : lineOf (Sequencer.accepted security before) ≠ .charging := by
    intro h
    have hcharging := (hinv.charging (fun h => hclosed (.inr (.inl h)))
      (fun h => hclosed (.inr (.inr h)))).mpr h
    exact hlive (.inr (.inr hcharging))
  rw [← answered_iff_of_orderly hinv.orderly hline]
  exact and_iff_left ⟨fun h => hlive (.inl h), fun h => hlive (.inr (.inl h))⟩

theorem pausesCold_iff (security : Security) (calls : List Call) :
    PausesCold security calls ↔ PausesSettled security calls := by
  constructor
  · intro h before c after heq hc hpermits
    exact (pause_answered_iff hpermits).mp (h before c after heq hc hpermits)
  · intro h before c after heq hc hpermits
    exact (pause_answered_iff hpermits).mpr (h before c after heq hc hpermits)

end Iso15118.Session.Iso2

/-! ## ISO 15118-20

The second generation adds a way of stopping, `PowerDeliveryReq(Standby)`, and a second way of
leaving the charge loop without stopping: a service renegotiation, back to authorization. -/

namespace Iso15118.Session.Iso20

open Iso15118.Lib

/-- The request is `PowerDeliveryReq(Start)`. -/
def Accepted.starts (e : Accepted) : Bool := e.request = .powerDelivery .start

/-- The request is `PowerDeliveryReq(Stop)` or `PowerDeliveryReq(Standby)`. -/
def Accepted.stops (e : Accepted) : Bool :=
  e.request = .powerDelivery .stop ∨ e.request = .powerDelivery .standby

/-- The request takes the session from the charge loop back to parameter discovery, or back to
where it had just been authorized. -/
def Accepted.renegotiates (e : Accepted) : Bool :=
  e.before.phase = .charging ∧ (e.next = .chargeParameters ∨ e.next = .authorized)

/-- The line after a log of accepted requests. -/
abbrev lineOf (log : List Accepted) : Line :=
  line Accepted.starts Accepted.stops Accepted.renegotiates log

/-- The sequencer's phase refines the line, as in -2; a session in standby has a cold line. -/
structure Lined (s : Sequencer) (log : List Accepted) : Prop where
  charging : s.phase ≠ .stopped → s.phase ≠ .paused →
    (s.phase = .charging ↔ lineOf log = .charging)
  standby : s.phase = .standby → lineOf log = .cold
  orderly : Along (fun before e => Orderly Accepted.starts Accepted.stops Accepted.renegotiates
    (lineOf before) e) log

/-- What an arrow does to the line: start it, stop it out of the charge loop or out of standby,
leave the loop to renegotiate, or none of these. -/
theorem Sequencer.Arrow.power {s : Sequencer} {r : Request} {p : Phase} (h : s.Arrow r p) :
    (r = .powerDelivery .start ∧ p = .charging)
      ∨ ((r = .powerDelivery .stop ∨ r = .powerDelivery .standby)
          ∧ (s.phase = .charging ∨ s.phase = .standby) ∧ (p = .powerStopped ∨ p = .standby))
      ∨ (s.phase = .charging ∧ (p = .chargeParameters ∨ p = .authorized))
          ∧ r ≠ .powerDelivery .start ∧ ¬ (r = .powerDelivery .stop ∨ r = .powerDelivery .standby)
      ∨ (p = .stopped ∨ p = .paused ∨ (s.phase = .charging ↔ p = .charging)) ∧ p ≠ .standby
          ∧ ¬ (s.phase = .charging ∧ (p = .chargeParameters ∨ p = .authorized))
          ∧ r ≠ .powerDelivery .start
          ∧ ¬ (r = .powerDelivery .stop ∨ r = .powerDelivery .standby) := by
  cases h with
  | forward _ hstep =>
    cases hstep with
    | startDirectly _ _ => exact .inl ⟨rfl, rfl⟩
    | startAfterPreCharge _ => exact .inl ⟨rfl, rfl⟩
    | repeatStart _ _ => exact .inl ⟨rfl, rfl⟩
    | startAfterStandby _ => exact .inl ⟨rfl, rfl⟩
    | standBy hp => exact .inr (.inl ⟨.inr rfl, .inl hp, .inr rfl⟩)
    | stopPower hp => exact .inr (.inl ⟨.inl rfl, hp.symm, .inl rfl⟩)
    | renegotiateSchedule hp => exact .inr (.inr (.inl ⟨⟨hp, .inl rfl⟩, by simp⟩))
    | _ => grind
  | renegotiateService _ hp =>
    by_cases hc : s.phase = .charging
    · exact .inr (.inr (.inl ⟨⟨hc, .inr rfl⟩, by simp⟩))
    · simp [hc]
  | terminate _ => simp
  | pause _ _ => simp

/-- A step is orderly, and moves the line as it moves the phase. -/
theorem Lined.advance {s : Sequencer} {log : List Accepted} {r : Request} {o : Bool} {p : Phase}
    (h : Lined s log) (harrow : s.Arrow r p) :
    Lined (s.advance r o p) (log ++ [⟨s, r, p⟩]) := by
  have hline := h.charging harrow.not_over.1 harrow.not_over.2
  rcases harrow.power with ⟨rfl, rfl⟩ | ⟨hr, hp, hnext⟩ | ⟨hreneg, hr⟩ | ⟨hp, hstandby, hreneg, hr⟩
  -- power is started
  · refine ⟨fun _ _ => ?_, fun hp => ?_, (along_concat _ _).mpr ⟨h.orderly, ?_, ?_⟩⟩
    · simp [Line.next, Accepted.starts]
    · cases hp
    · simp [Accepted.stops]
    · simp [Accepted.renegotiates]
  -- power is stopped, and the line is cold from here
  · have hstart : r ≠ .powerDelivery .start := by rcases hr with rfl | rfl <;> simp
    have hcold : lineOf (log ++ [⟨s, r, p⟩]) = .cold := by
      simp only [line_concat, Line.next, Accepted.starts, Accepted.stops, decide_eq_true_eq,
        if_neg hstart, if_pos hr]
    refine ⟨fun _ _ => ?_, fun _ => hcold, (along_concat _ _).mpr ⟨h.orderly, ?_, ?_⟩⟩
    · rw [hcold]
      rcases hnext with rfl | rfl <;> simp
    · -- power is stopped by a session that is charging, or standing by with a cold line
      intro _
      rcases hp with hp | hp
      · rw [hline.mp hp]; simp
      · rw [h.standby hp]; simp
    · rcases hnext with rfl | rfl <;> simp [Accepted.renegotiates]
  -- a renegotiation begins
  · refine ⟨fun _ _ => ?_, fun hp => ?_, (along_concat _ _).mpr ⟨h.orderly, ?_, ?_⟩⟩
    · have hopen : lineOf (log ++ [⟨s, r, p⟩]) = .renegotiating := by
        simp only [line_concat, Line.next, Accepted.starts, Accepted.stops, Accepted.renegotiates,
          decide_eq_true_eq, if_neg hr.1, if_neg hr.2, if_pos hreneg]
      rw [hopen]
      rcases hreneg.2 with rfl | rfl <;> simp
    · obtain rfl : p = .standby := hp
      simp at hreneg
    · simp [Accepted.stops, hr.2]
    · simp [Accepted.starts, Accepted.stops, hline.mp hreneg.1, hr.1, hr.2]
  -- the line stays as it was
  · refine ⟨fun hstopped hpaused => ?_, fun h => absurd h hstandby,
      (along_concat _ _).mpr ⟨h.orderly, ?_, ?_⟩⟩
    · have hiff : s.phase = .charging ↔ p = .charging :=
        (hp.resolve_left hstopped).resolve_left hpaused
      have hkeep : lineOf (log ++ [⟨s, r, p⟩]) = lineOf log := by
        simp only [line_concat, Line.next, Accepted.starts, Accepted.stops, Accepted.renegotiates,
          decide_eq_true_eq, if_neg hr.1, if_neg hr.2, if_neg hreneg]
      rw [hkeep, ← hline, hiff]
      rfl
    · simp [Accepted.stops, hr.2]
    · simp only [Accepted.renegotiates, decide_eq_true_eq]
      exact fun h => absurd h hreneg

/-- The phase refines the line after every run in which no paused session is resumed. -/
theorem lined_after {calls : List Call} (hresume : ∀ t, Call.resume t ∉ calls) :
    Lined (Sequencer.after calls) (Sequencer.accepted calls) := by
  induction calls using List.reverseRecOn with
  | nil => exact ⟨fun _ _ => by simp [Sequencer.new], fun h => (by cases h), along_nil⟩
  | append_singleton xs c ih =>
    have ih := ih fun t ht => hresume t (List.mem_append_left _ ht)
    rw [Sequencer.after_concat, Sequencer.accepted_concat]
    rcases Sequencer.call_cases (Sequencer.after xs) c with
      ⟨hcall, hlog⟩ | ⟨hcall, hlog⟩ | ⟨t, rfl, -, -⟩ | ⟨r, o, p, rfl, harrow, hcall, hlog⟩
    · rw [hcall, hlog, List.append_nil]
      exact ih
    · rw [hcall, hlog, List.append_nil]
      exact ⟨ih.charging, ih.standby, ih.orderly⟩
    · exact absurd (List.mem_append_right _ (List.mem_singleton_self _)) (hresume t)
    · rw [hcall, hlog]
      exact ih.advance harrow

/-- At every pause the run has accepted: each accepted `PowerDeliveryReq(Start)` before it was
followed by an accepted `PowerDeliveryReq(Stop)` or `PowerDeliveryReq(Standby)`, and the session
was not in the cable check or the pre-charge. -/
def PausesCold (calls : List Call) : Prop :=
  Along (fun before c => (∃ o, c = .accept (.sessionStop .pause) o) →
    (Sequencer.after before).permits (.sessionStop .pause) = true →
    Answered Accepted.starts Accepted.stops (Sequencer.accepted before)
      ∧ (Sequencer.after before).phase ≠ .cableCheck
      ∧ (Sequencer.after before).phase ≠ .preCharge) calls

/-- No pause the run has accepted comes between a renegotiation out of the charge loop and the
next accepted `PowerDeliveryReq(Start)`. -/
def PausesSettled (calls : List Call) : Prop :=
  Along (fun before c => (∃ o, c = .accept (.sessionStop .pause) o) →
    (Sequencer.after before).permits (.sessionStop .pause) = true →
    Answered Accepted.renegotiates Accepted.starts (Sequencer.accepted before)) calls

/-- A pause that is accepted finds the session outside the live phases, and not over. -/
theorem Sequencer.not_live_of_permits_pause {s : Sequencer}
    (h : s.permits (.sessionStop .pause) = true) :
    ¬ Phase.Closed s.phase ∧ ¬ Phase.Live s.phase := by
  obtain ⟨p, hp⟩ := Option.isSome_iff_exists.mp h
  cases arrow_of_nextPhase hp with
  | forward _ hstep => cases hstep
  | pause hclosed hlive => exact ⟨hclosed, hlive⟩

/-- At an accepted pause, what was started has been stopped exactly when no renegotiation is
left open. -/
theorem pause_answered_iff {before : List Call} (hresume : ∀ t, Call.resume t ∉ before)
    (hpermits : (Sequencer.after before).permits (.sessionStop .pause) = true) :
    (Answered Accepted.starts Accepted.stops (Sequencer.accepted before)
      ∧ (Sequencer.after before).phase ≠ .cableCheck
      ∧ (Sequencer.after before).phase ≠ .preCharge)
    ↔ Answered Accepted.renegotiates Accepted.starts (Sequencer.accepted before) := by
  obtain ⟨hclosed, hlive⟩ := Sequencer.not_live_of_permits_pause hpermits
  have hinv := lined_after hresume
  have hline : lineOf (Sequencer.accepted before) ≠ .charging := by
    intro h
    have hcharging := (hinv.charging (fun h => hclosed (.inr (.inl h)))
      (fun h => hclosed (.inr (.inr h)))).mpr h
    exact hlive (.inr (.inr hcharging))
  rw [← answered_iff_of_orderly hinv.orderly hline]
  exact and_iff_left ⟨fun h => hlive (.inl h), fun h => hlive (.inr (.inl h))⟩

theorem pausesCold_iff {calls : List Call} (hresume : ∀ t, Call.resume t ∉ calls) :
    PausesCold calls ↔ PausesSettled calls := by
  have hbefore : ∀ {before c after}, calls = before ++ c :: after → ∀ t, Call.resume t ∉ before :=
    fun heq t ht => hresume t (heq ▸ List.mem_append_left _ ht)
  constructor
  · intro h before c after heq hc hpermits
    exact (pause_answered_iff (hbefore heq) hpermits).mp (h before c after heq hc hpermits)
  · intro h before c after heq hc hpermits
    exact (pause_answered_iff (hbefore heq) hpermits).mpr (h before c after heq hc hpermits)

end Iso15118.Session.Iso20

/-! ## Both generations

The two equivalences in one statement. -/

namespace Iso15118.Session

open Iso15118.Lib

/-- **Pausing with the power off, exactly.** In either generation the pauses a run has accepted
find everything that was started stopped if and only if none of them comes between a
renegotiation out of the charge loop and the next start. -/
theorem pauses_strand_nothing_iff (security : Security) (calls : List Iso2.Call)
    (calls' : List Iso20.Call) (hresume : ∀ t, Iso20.Call.resume t ∉ calls') :
    (Iso2.PausesCold security calls ↔ Iso2.PausesSettled security calls)
      ∧ (Iso20.PausesCold calls' ↔ Iso20.PausesSettled calls') :=
  ⟨Iso2.pausesCold_iff security calls, Iso20.pausesCold_iff hresume⟩

/-- The rule at work in a run of each generation that charges, stops and pauses. -/
theorem pauses_strand_nothing_iff_stopped :
    (Iso2.PausesCold .none
        [.accept .sessionSetup, .accept .serviceDiscovery,
          .accept (.paymentServiceSelection .externalPayment), .accept .authorization,
          .accept (.chargeParameterDiscovery .acThreePhaseCore), .accept (.powerDelivery .start),
          .accept (.powerDelivery .stop), .accept (.sessionStop .pause)]
      ↔ Iso2.PausesSettled .none
        [.accept .sessionSetup, .accept .serviceDiscovery,
          .accept (.paymentServiceSelection .externalPayment), .accept .authorization,
          .accept (.chargeParameterDiscovery .acThreePhaseCore), .accept (.powerDelivery .start),
          .accept (.powerDelivery .stop), .accept (.sessionStop .pause)])
      ∧ (Iso20.PausesCold
          [.accept .sessionSetup false, .accept .authorizationSetup false,
            .accept .authorization false, .accept .serviceDiscovery false,
            .accept (.serviceSelection ⟨.ac, false⟩) false,
            .accept .chargeParameterDiscovery false, .accept .scheduleExchange false,
            .accept (.powerDelivery .start) false, .accept (.powerDelivery .standby) false,
            .accept (.sessionStop .pause) false]
        ↔ Iso20.PausesSettled
          [.accept .sessionSetup false, .accept .authorizationSetup false,
            .accept .authorization false, .accept .serviceDiscovery false,
            .accept (.serviceSelection ⟨.ac, false⟩) false,
            .accept .chargeParameterDiscovery false, .accept .scheduleExchange false,
            .accept (.powerDelivery .start) false, .accept (.powerDelivery .standby) false,
            .accept (.sessionStop .pause) false]) :=
  pauses_strand_nothing_iff _ _ _ (by simp)

/-- A charge renegotiated and then paused: both generations accept the pause although nothing
was stopped after the start. -/
theorem not_pausesCold_renegotiated :
    ¬ Iso2.PausesCold .none
        (([.accept .sessionSetup, .accept .serviceDiscovery,
          .accept (.paymentServiceSelection .externalPayment), .accept .authorization,
          .accept (.chargeParameterDiscovery .acThreePhaseCore), .accept (.powerDelivery .start),
          .accept (.powerDelivery .renegotiate)] : List Iso2.Call)
          ++ ([.accept (.sessionStop .pause)] : List Iso2.Call))
      ∧ ¬ Iso20.PausesCold
        (([.accept .sessionSetup false, .accept .authorizationSetup false,
          .accept .authorization false, .accept .serviceDiscovery false,
          .accept (.serviceSelection ⟨.ac, false⟩) false,
          .accept .chargeParameterDiscovery false, .accept .scheduleExchange false,
          .accept (.powerDelivery .start) false,
          .accept (.powerDelivery .scheduleRenegotiation) false] : List Iso20.Call)
          ++ ([.accept (.sessionStop .pause) false] : List Iso20.Call)) := by
  constructor
  · intro h
    obtain ⟨hstopped, -⟩ := ((along_concat _ _).mp h).2 rfl (by decide)
    exact absurd ((live_eq_false_iff _).mpr hstopped) (by decide)
  · intro h
    obtain ⟨hstopped, -⟩ := ((along_concat _ _).mp h).2 ⟨false, rfl⟩ (by decide)
    exact absurd ((live_eq_false_iff _).mpr hstopped) (by decide)

end Iso15118.Session
