import Iso15118.Session.Clock
import Mathlib.Logic.Function.Basic

/-!
# The V2G timers

`session/timers.rs`: the figures of the standards and the set of deadlines a session keeps. A
caller sleeps until the earliest deadline and then asks for what has expired, one timer at a
time, until there is nothing left.
-/

namespace Iso15118.Session

/-- `Millis::from_secs`, saturating. -/
def Millis.fromSecs (secs : UInt64) : Millis :=
  if secs.toNat * 1000 < 2 ^ 64 then ⟨secs * 1000⟩ else ⟨UInt64.ofNat (2 ^ 64 - 1)⟩

/-! ## The figures

The times of the standards, as constants of the source. -/

namespace Timing.Iso2

def seccSequenceTimeout : Millis := .fromSecs 60
def evccCommunicationSetupTimeout : Millis := .fromSecs 20
def seccCommunicationSetupPerformanceTime : Millis := .fromSecs 18
def evccOngoingTimeout : Millis := .fromSecs 60
def seccOngoingPerformanceTime : Millis := .fromSecs 55
def evccCableCheckTimeout : Millis := .fromSecs 40
def seccCableCheckPerformanceTime : Millis := .fromSecs 38
def evccPreChargeTimeout : Millis := .fromSecs 7
def seccPreChargePerformanceTime : Millis := .fromSecs 5
def msgTimeoutDefault : Millis := .fromSecs 2
def msgTimeoutBackend : Millis := .fromSecs 5
def msgTimeoutCurrentDemand : Millis := .fromMillis 250
def seccMsgPerformanceDefault : Millis := .fromMillis 1500
def seccMsgPerformanceBackend : Millis := .fromMillis 4500
def seccMsgPerformanceCurrentDemand : Millis := .fromMillis 25

end Timing.Iso2

namespace Timing.Iso20

def ongoingTimeout : Millis := .fromSecs 60
def seccOngoingPerformanceTime : Millis := .fromSecs 55
def eimOngoingTimeout : Millis := .fromSecs 180
def seccEimOngoingPerformanceTime : Millis := .fromSecs 175

end Timing.Iso20

/-! ## The set of deadlines

A slot for each timer. What has expired is the earliest deadline that is due, and of several the
timer that comes first. -/

inductive Timer where
  /-- Waiting for the peer's next message. -/
  | sequence
  /-- Waiting for the answer to the request just sent. -/
  | message
  /-- Re-sending a request the peer keeps answering with `..._Ongoing`. -/
  | ongoing
  /-- From link-up to `SessionSetupRes`. -/
  | communicationSetup
  deriving DecidableEq, Repr

namespace Timer

/-- `Timer::ALL`. -/
def all : List Timer := [.sequence, .message, .ongoing, .communicationSetup]

def index : Timer → Nat
  | .sequence => 0
  | .message => 1
  | .ongoing => 2
  | .communicationSetup => 3

theorem mem_all (t : Timer) : t ∈ all := by
  cases t <;> simp [all]

end Timer

/-- The deadlines a session is currently waiting on. -/
structure Timers where
  deadlines : Timer → Option Instant

namespace Timers

/-- `Timers::new`. -/
def new : Timers := ⟨fun _ => none⟩

/-- Starts (or restarts) `timer` to expire `after` from `now`. -/
def arm (t : Timers) (timer : Timer) (now : Instant) (after : Millis) : Timers :=
  ⟨Function.update t.deadlines timer (some (now.saturatingAdd after))⟩

/-- Stops `timer`. -/
def disarm (t : Timers) (timer : Timer) : Timers :=
  ⟨Function.update t.deadlines timer none⟩

/-- Stops every timer: what session termination does. -/
def disarmAll (_ : Timers) : Timers := ⟨fun _ => none⟩

/-- The deadline of `timer`, if it is running. -/
def deadline (t : Timers) (timer : Timer) : Option Instant := t.deadlines timer

/-- The earlier of two due timers: by deadline, then in the order of `Timer`. -/
def earlier (x y : Instant × Timer) : Instant × Timer :=
  if x.1 < y.1 ∨ x.1 = y.1 ∧ x.2.index ≤ y.2.index then x else y

/-- The timers that are due at `now`, with their deadlines. -/
def due (t : Timers) (now : Instant) : List (Instant × Timer) :=
  (Timer.all.filterMap fun timer => (t.deadline timer).map fun d => (d, timer)).filter
    fun x => x.1 ≤ now

/-- The timer that has expired at `now`, earliest deadline first, removing it from the set. -/
def expired (t : Timers) (now : Instant) : Option Timer × Timers :=
  match t.due now with
  | [] => (none, t)
  | x :: rest =>
      let timer := (rest.foldl earlier x).2
      (some timer, t.disarm timer)

@[simp] theorem deadline_new (timer : Timer) : new.deadline timer = none := rfl

@[simp] theorem deadline_disarmAll (t : Timers) (timer : Timer) :
    t.disarmAll.deadline timer = none := rfl

@[simp] theorem deadline_arm_self (t : Timers) (timer : Timer) (now : Instant) (after : Millis) :
    (t.arm timer now after).deadline timer = some (now.saturatingAdd after) :=
  Function.update_self ..

theorem deadline_arm_of_ne {t : Timers} {timer other : Timer} {now : Instant} {after : Millis}
    (h : other ≠ timer) : (t.arm timer now after).deadline other = t.deadline other :=
  Function.update_of_ne h ..

@[simp] theorem deadline_disarm_self (t : Timers) (timer : Timer) :
    (t.disarm timer).deadline timer = none := Function.update_self ..

theorem deadline_disarm_of_ne {t : Timers} {timer other : Timer} (h : other ≠ timer) :
    (t.disarm timer).deadline other = t.deadline other := Function.update_of_ne h ..

theorem mem_due {t : Timers} {now d : Instant} {timer : Timer} :
    (d, timer) ∈ t.due now ↔ t.deadline timer = some d ∧ d ≤ now := by
  unfold due
  rw [List.mem_filter, List.mem_filterMap, decide_eq_true_iff]
  refine and_congr_left fun _ => ⟨?_, fun h => ⟨timer, timer.mem_all, by rw [h]; rfl⟩⟩
  rintro ⟨other, -, h⟩
  obtain ⟨d', hd', heq⟩ := Option.map_eq_some_iff.mp h
  obtain ⟨rfl, rfl⟩ := Prod.mk.inj heq
  exact hd'

theorem foldl_earlier_mem (x : Instant × Timer) (rest : List (Instant × Timer)) :
    rest.foldl earlier x ∈ x :: rest := by
  induction rest generalizing x with
  | nil => exact List.mem_singleton_self x
  | cons y rest ih =>
    have hmem := ih (earlier x y)
    rw [List.foldl_cons]
    have hxy : earlier x y = x ∨ earlier x y = y := by
      unfold earlier
      split
      · exact .inl rfl
      · exact .inr rfl
    rcases List.mem_cons.mp hmem with h | h
    · rw [h]
      rcases hxy with hxy | hxy <;> rw [hxy] <;> simp
    · exact List.mem_cons_of_mem _ (List.mem_cons_of_mem _ h)

/-- **What has expired.** Either nothing is due and the set stays, or a due timer is handed over
and disarmed. -/
theorem expired_cases (t : Timers) (now : Instant) :
    (t.expired now = (none, t) ∧ ∀ timer d, t.deadline timer = some d → ¬ d ≤ now)
      ∨ ∃ timer d, t.expired now = (some timer, t.disarm timer) ∧ t.deadline timer = some d
          ∧ d ≤ now := by
  unfold expired
  split
  · next hdue =>
    refine .inl ⟨rfl, fun timer d hd hle => ?_⟩
    have hmem : (d, timer) ∈ t.due now := mem_due.mpr ⟨hd, hle⟩
    rw [hdue] at hmem
    cases hmem
  · next x rest hdue =>
    have hmem : rest.foldl earlier x ∈ t.due now := by
      rw [hdue]
      exact foldl_earlier_mem x rest
    obtain ⟨hd, hle⟩ := mem_due.mp hmem
    exact .inr ⟨_, _, rfl, hd, hle⟩

/-- How many timers are running. -/
def running (t : Timers) : Nat := Timer.all.countP fun timer => (t.deadline timer).isSome

theorem running_disarm_lt {t : Timers} {timer : Timer} {d : Instant}
    (h : t.deadline timer = some d) : (t.disarm timer).running < t.running := by
  have hother : ∀ other, other ≠ timer → (t.disarm timer).deadline other = t.deadline other :=
    fun other => deadline_disarm_of_ne
  cases timer with
  | sequence =>
    simp [running, Timer.all, List.countP_cons, h, hother .message, hother .ongoing,
      hother .communicationSetup]
  | message =>
    simp [running, Timer.all, List.countP_cons, h, hother .sequence, hother .ongoing,
      hother .communicationSetup]
  | ongoing =>
    simp [running, Timer.all, List.countP_cons, h, hother .sequence, hother .message,
      hother .communicationSetup]
  | communicationSetup =>
    simp [running, Timer.all, List.countP_cons, h, hother .sequence, hother .message,
      hother .ongoing]

end Timers

end Iso15118.Session
