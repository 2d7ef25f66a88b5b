import Iso15118.Lib.Check
import Iso15118.Lib.Timeline
import Mathlib.Algebra.Group.Int.Defs
import Mathlib.Algebra.Group.Nat.Defs

/-!
# The charging profile against the offered schedule

`session/iso2/schedule.rs`: the station offers tuples of power limits over time, and the vehicle
picks one and states the power it intends to draw. Both are step functions of the seconds since
the schedule was issued, read from lists of entries.

* **`scheduleSteps`**, **`profileSteps`** — the two lists as steps, with
  **`readSteps_eq_ok`** saying what they come to;
* **`pmaxAt`** — the power permitted at one offset;
* **`checkProfile`** — the comparison, and **`checkPowerDelivery`** around it.
-/

namespace Iso15118.Session.Iso2.Schedule

open Iso15118.Lib

/-! ## The messages' types

What the check reads of a `PowerDeliveryReq` and of a schedule. -/

inductive UnitSymbol where
  | h
  | m
  | s
  | a
  | v
  | w
  | wh
  deriving DecidableEq, Repr

/-- `value * 10 ^ multiplier`. -/
structure PhysicalValue where
  multiplier : Int8
  unit : UnitSymbol
  value : Int16
  deriving DecidableEq

structure RelativeTimeInterval where
  start : UInt32
  duration : Option UInt32
  deriving DecidableEq, Repr

/-- `PMaxScheduleEntryChoice`. The head of the substitution group carries no time at all. -/
inductive PMaxScheduleEntryChoice where
  | relativeTimeInterval (interval : RelativeTimeInterval)
  | timeInterval
  deriving DecidableEq, Repr

structure PMaxScheduleEntry where
  choice : PMaxScheduleEntryChoice
  pMax : PhysicalValue
  deriving DecidableEq

structure SAScheduleTuple where
  saScheduleTupleId : UInt8
  pMaxSchedule : List PMaxScheduleEntry
  deriving DecidableEq

structure ProfileEntry where
  chargingProfileEntryStart : UInt32
  chargingProfileEntryMaxPower : PhysicalValue
  deriving DecidableEq

structure ChargingProfile where
  profileEntry : List ProfileEntry
  deriving DecidableEq

/-- What a `PowerDeliveryReq` says of the schedule. -/
structure PowerDeliveryReq where
  saScheduleTupleId : UInt8
  chargingProfile : Option ChargingProfile
  deriving DecidableEq

/-- Power in milliwatts. An `i64` in the source, four orders of magnitude wider than any value. -/
abbrev Milliwatts := Int

/-- Why a `PowerDeliveryReq` cannot be accepted as it stands. -/
inductive ProfileError where
  | unknownScheduleTuple (requested : UInt8)
  | exceedsPMax (offset : UInt32) (requested permitted : Milliwatts)
  | notWatts (unit : UnitSymbol)
  | multiplierOutOfRange (multiplier : Int8)
  | profileOutOfOrder (index : Nat)
  | scheduleOutOfOrder (index : Nat)
  | scheduleNotRelative (index : Nat)
  deriving DecidableEq

/-! ## Powers

A physical value comes with a unit and a power of ten. What is not a power in watts has none. -/

/-- `power_mw`. -/
def powerMw (value : PhysicalValue) : Except ProfileError Milliwatts :=
  if value.unit ≠ .w then .error (.notWatts value.unit)
  else
    let exponent := value.multiplier.toInt + 3
    if 0 ≤ exponent ∧ exponent ≤ 6 then .ok (value.value.toInt * 10 ^ exponent.toNat)
    else .error (.multiplierOutOfRange value.multiplier)

/-! ## Steps

Entries give their starts, and an entry ends where the next one starts. The last entry of a
schedule may have a duration, and that of a profile has none. -/

/-- `u32::MAX`. -/
def u32Max : UInt32 := UInt32.ofNat (2 ^ 32 - 1)

/-- `u32::saturating_add`. -/
def saturatingAdd (a b : UInt32) : UInt32 :=
  if a.toNat + b.toNat < 2 ^ 32 then a + b else u32Max

/-- One step of a step function over the seconds since the schedule was issued. -/
structure Step where
  start : UInt32
  /-- The source's `end`: `None` where none is stated. -/
  stop : Option UInt32
  power : Milliwatts
  deriving DecidableEq

namespace Step

/-- Whether the two steps overlap. -/
def overlaps (s other : Step) : Bool :=
  let aEnd := s.stop.getD u32Max
  let bEnd := other.stop.getD u32Max
  s.start < bEnd && other.start < aEnd

/-- Where the overlap starts. -/
def overlapStart (s other : Step) : UInt32 :=
  if other.start < s.start then s.start else other.start

end Step

/-- One turn of the loop over the entries: the start of an entry is also the stop of the one before
it, and has to be later than its start. -/
def pushStep (outOfOrder : ProfileError) (steps : List Step) (start : UInt32)
    (power : Milliwatts) : Except ProfileError (List Step) :=
  match steps.getLast? with
  | some previous =>
      if start ≤ previous.start then .error outOfOrder
      else .ok (steps.dropLast ++ [{ previous with stop := some start }, ⟨start, none, power⟩])
  | none => .ok (steps ++ [⟨start, none, power⟩])

/-- Reads a list of entries as a step function, in order. `read` tells when an entry starts and
what its power is. -/
def readSteps {α : Type} (read : Nat → α → Except ProfileError (UInt32 × Milliwatts))
    (outOfOrder : Nat → ProfileError) (entries : List α) : Except ProfileError (List Step) :=
  entries.zipIdx.foldlM (fun steps entry => do
    let (start, power) ← read entry.2 entry.1
    pushStep (outOfOrder entry.2) steps start power) []

/-- What one entry of the schedule says. -/
def readPMax (index : Nat) (entry : PMaxScheduleEntry) :
    Except ProfileError (UInt32 × Milliwatts) :=
  match entry.choice with
  | .timeInterval => .error (.scheduleNotRelative index)
  | .relativeTimeInterval interval => do
      let power ← powerMw entry.pMax
      return (interval.start, power)

/-- The `duration` of the last entry, which ends the coverage. -/
def lastDuration (entries : List PMaxScheduleEntry) : Option UInt32 := do
  let entry ← entries.getLast?
  match entry.choice with
  | .relativeTimeInterval interval => interval.duration
  | .timeInterval => none

/-- Gives the last step an end. -/
def closeLast (steps : List Step) (duration : UInt32) : List Step :=
  match steps.getLast? with
  | some last => steps.dropLast ++ [{ last with stop := some (saturatingAdd last.start duration) }]
  | none => steps

/-- Reads the offered schedule as a step function. -/
def scheduleSteps (tuple : SAScheduleTuple) : Except ProfileError (List Step) := do
  let steps ← readSteps readPMax .scheduleOutOfOrder tuple.pMaxSchedule
  match lastDuration tuple.pMaxSchedule with
  | some duration => return closeLast steps duration
  | none => return steps

/-- What one entry of the profile says. -/
def readEntry (_index : Nat) (entry : ProfileEntry) :
    Except ProfileError (UInt32 × Milliwatts) := do
  let power ← powerMw entry.chargingProfileEntryMaxPower
  return (entry.chargingProfileEntryStart, power)

/-- Reads the vehicle's profile as a step function. -/
def profileSteps (profile : ChargingProfile) : Except ProfileError (List Step) :=
  readSteps readEntry .profileOutOfOrder profile.profileEntry

/-- The power the schedule permits `offset` seconds after it was issued. -/
def pmaxAt (tuple : SAScheduleTuple) (offset : UInt32) :
    Except ProfileError (Option Milliwatts) := do
  let steps ← scheduleSteps tuple
  let step := steps.find? fun s => s.start ≤ offset && s.stop.all fun stop => offset < stop
  return step.map Step.power

/-! ## The comparison

Two loops, one inside the other, over the steps of the profile and those of the schedule. -/

/-- `check_profile`: the first pair of steps in which more is wanted than permitted. -/
def checkProfile (tuple : SAScheduleTuple) (profile : ChargingProfile) :
    Except ProfileError Unit := do
  let limits ← scheduleSteps tuple
  let wanted ← profileSteps profile
  wanted.forM fun want => limits.forM fun limit =>
    if want.overlaps limit ∧ limit.power < want.power then
      .error (.exceedsPMax (want.overlapStart limit) want.power limit.power)
    else .ok ()

/-- Checks a `PowerDeliveryReq` against the schedules the station offered. -/
def checkPowerDelivery (offered : List SAScheduleTuple) (req : PowerDeliveryReq) :
    Except ProfileError Unit :=
  match offered.find? fun t => t.saScheduleTupleId = req.saScheduleTupleId with
  | none => .error (.unknownScheduleTuple req.saScheduleTupleId)
  | some tuple =>
      match req.chargingProfile with
      | none => .ok ()
      | some profile => checkProfile tuple profile

/-! ## What is read

What the loops make of a list: as many steps as entries, laid end to end. By induction on the
entries, for any steps that were laid before. -/

/-- The entry states a limit from `start` on. -/
def PMaxScheduleEntry.States (entry : PMaxScheduleEntry) (start : UInt32) (power : Milliwatts) :
    Prop :=
  ∃ duration, entry.choice = .relativeTimeInterval ⟨start, duration⟩
    ∧ powerMw entry.pMax = .ok power

def ProfileEntry.States (entry : ProfileEntry) (start : UInt32) (power : Milliwatts) : Prop :=
  entry.chargingProfileEntryStart = start ∧ powerMw entry.chargingProfileEntryMaxPower = .ok power

/-- Each entry states a start and a power, and the starts increase. -/
structure Stated {α : Type} (states : α → UInt32 → Milliwatts → Prop) (entries : List α)
    (points : List (UInt32 × Milliwatts)) : Prop where
  each : List.Forall₂ (fun entry point => states entry point.1 point.2) entries points
  ordered : points.IsChain fun a b => a.1 < b.1

/-- Two lists that match entry by entry are both empty, or their last entries match. -/
theorem eq_nil_or_last {α β : Type} {R : α → β → Prop} {xs : List α} {ys : List β}
    (h : List.Forall₂ R xs ys) :
    xs = [] ∧ ys = [] ∨ ∃ xs' x ys' y, xs = xs' ++ [x] ∧ ys = ys' ++ [y] ∧ R x y := by
  induction h with
  | nil => exact .inl ⟨rfl, rfl⟩
  | @cons x y xs ys hxy hrest ih =>
    refine .inr ?_
    rcases ih with ⟨rfl, rfl⟩ | ⟨xs', x', ys', y', rfl, rfl, hlast⟩
    · exact ⟨[], x, [], y, rfl, rfl, hxy⟩
    · exact ⟨x :: xs', x', y :: ys', y', rfl, rfl, hlast⟩

/-- The steps that start at these points, the last of them stopping at `last`. -/
def lay (last : Option UInt32) : List (UInt32 × Milliwatts) → List Step
  | [] => []
  | (start, power) :: rest => ⟨start, (rest.head?.map Prod.fst).or last, power⟩ :: lay last rest

theorem lay_concat (last : Option UInt32) (points : List (UInt32 × Milliwatts)) (start : UInt32)
    (power : Milliwatts) :
    lay last (points ++ [(start, power)]) = lay (some start) points ++ [⟨start, last, power⟩] := by
  induction points with
  | nil => rfl
  | cons point points ih =>
    show _ :: lay last (points ++ [(start, power)]) = _ :: (lay (some start) points ++ _)
    rw [ih]
    cases points <;> rfl

theorem tiled_lay {last : Option UInt32} {points : List (UInt32 × Milliwatts)}
    (h : points.IsChain fun a b => a.1 < b.1) : Tiled Step.start Step.stop (lay last points) := by
  induction points with
  | nil => exact .nil
  | cons point points ih =>
    cases points with
    | nil => exact .singleton _
    | cons next points =>
      obtain ⟨hlt, hchain⟩ := List.isChain_cons_cons.mp h
      exact List.isChain_cons_cons.mpr ⟨⟨hlt, rfl⟩, ih hchain⟩

/-- One entry more is one point more, later than all the others. -/
theorem pushStep_lay {points : List (UInt32 × Milliwatts)} {start : UInt32} {power : Milliwatts}
    {e : ProfileError} {steps : List Step} (h : points.IsChain fun a b => a.1 < b.1) :
    pushStep e (lay none points) start power = .ok steps ↔
      ((points ++ [(start, power)]).IsChain fun a b => a.1 < b.1)
        ∧ steps = lay none (points ++ [(start, power)]) := by
  -- the first entry follows nothing; any other ends the step before it
  rcases List.eq_nil_or_concat points with rfl | ⟨earlier, previous, rfl⟩
  · constructor
    · intro hpush
      cases hpush
      exact ⟨.singleton _, rfl⟩
    · rintro ⟨-, rfl⟩
      rfl
  · rw [List.concat_eq_append] at h ⊢
    have hpush : pushStep e (lay none (earlier ++ [previous])) start power
        = if start ≤ previous.1 then .error e
          else .ok (lay none (earlier ++ [previous] ++ [(start, power)])) := by
      have hlay : lay none (earlier ++ [previous])
          = lay (some previous.1) earlier ++ [⟨previous.1, none, previous.2⟩] := lay_concat ..
      have hlay' : lay none (earlier ++ [previous] ++ [(start, power)])
          = lay (some previous.1) earlier
            ++ [⟨previous.1, some start, previous.2⟩, ⟨start, none, power⟩] := by
        rw [lay_concat]
        exact (congrArg (· ++ [_]) (lay_concat ..)).trans (List.append_assoc ..)
      rw [hlay', hlay, pushStep, List.getLast?_concat, List.dropLast_concat]
    rw [hpush, refuse_eq_ok, List.isChain_append, List.getLast?_concat, not_le]
    constructor
    · rintro ⟨hlt, hok⟩
      refine ⟨⟨h, .singleton _, fun a ha b hb => ?_⟩, (Except.ok.inj hok).symm⟩
      cases ha
      cases hb
      exact hlt
    · rintro ⟨⟨-, -, hlt⟩, rfl⟩
      exact ⟨hlt _ rfl _ rfl, rfl⟩

section Reading

variable {α : Type} {read : Nat → α → Except ProfileError (UInt32 × Milliwatts)}
  {outOfOrder : Nat → ProfileError} {states : α → UInt32 → Milliwatts → Prop}

/-- The loop goes on from the points it has. Induction on the entries. -/
theorem readLoop_eq_ok (hread : ∀ i a start power,
      read i a = .ok (start, power) ↔ states a start power)
    (entries : List α) (k : Nat) {points : List (UInt32 × Milliwatts)} {steps : List Step}
    (h : points.IsChain fun a b => a.1 < b.1) :
    (entries.zipIdx k).foldlM (fun steps entry => do
        let (start, power) ← read entry.2 entry.1
        pushStep (outOfOrder entry.2) steps start power) (lay none points) = .ok steps ↔
      ∃ more, List.Forall₂ (fun entry point => states entry point.1 point.2) entries more
        ∧ ((points ++ more).IsChain fun a b => a.1 < b.1) ∧ steps = lay none (points ++ more) := by
  -- induction on the entries that are left
  induction entries generalizing k points with
  | nil =>
    constructor
    · intro hnil
      cases hnil
      exact ⟨[], .nil, by rwa [List.append_nil], by rw [List.append_nil]⟩
    · rintro ⟨more, hmore, -, rfl⟩
      cases hmore
      rw [List.append_nil]
      rfl
  | cons a entries ih =>
    rw [List.zipIdx_cons, List.foldlM_cons, bind_eq_ok]
    constructor
    · rintro ⟨steps', hstep, hrest⟩
      obtain ⟨⟨start, power⟩, hr, hpush⟩ := bind_eq_ok.mp hstep
      obtain ⟨hchain, rfl⟩ := (pushStep_lay h).mp hpush
      obtain ⟨more, hmore, hchain', rfl⟩ := (ih (k + 1) hchain).mp hrest
      rw [List.append_assoc] at hchain'
      refine ⟨(start, power) :: more, .cons ((hread k a start power).mp hr) hmore, hchain', ?_⟩
      rw [List.append_assoc]
      rfl
    · rintro ⟨more, hmore, hchain, rfl⟩
      obtain ⟨⟨start, power⟩, more, ha, hrest, rfl⟩ := List.forall₂_cons_left_iff.mp hmore
      have hsplit : points ++ (start, power) :: more = points ++ [(start, power)] ++ more := by
        rw [List.append_assoc]
        rfl
      rw [hsplit] at hchain
      -- the steps read so far are in order themselves
      have hfirst := (List.isChain_append.mp hchain).1
      refine ⟨_, bind_eq_ok.mpr ⟨(start, power), (hread k a start power).mpr ha,
        (pushStep_lay h).mpr ⟨hfirst, rfl⟩⟩, ?_⟩
      exact (ih (k + 1) hfirst).mpr ⟨more, hrest, hchain, by rw [hsplit]⟩

theorem readSteps_eq_ok (hread : ∀ i a start power,
      read i a = .ok (start, power) ↔ states a start power) {entries : List α}
    {steps : List Step} :
    readSteps read outOfOrder entries = .ok steps ↔
      ∃ points, Stated states entries points ∧ steps = lay none points := by
  refine (readLoop_eq_ok hread entries 0 .nil).trans ?_
  simp only [List.nil_append]
  exact ⟨fun ⟨more, h, h', heq⟩ => ⟨more, ⟨h, h'⟩, heq⟩,
    fun ⟨more, h, heq⟩ => ⟨more, h.1, h.2, heq⟩⟩

end Reading

/-- What the profile's entries come to. -/
theorem profileSteps_eq_ok {profile : ChargingProfile} {steps : List Step} :
    profileSteps profile = .ok steps ↔
      ∃ points, Stated ProfileEntry.States profile.profileEntry points
        ∧ steps = lay none points := by
  refine readSteps_eq_ok fun i entry start power => ?_
  unfold readEntry
  rw [bind_eq_ok]
  constructor
  · rintro ⟨p, hp, hpair⟩
    cases hpair
    exact ⟨rfl, hp⟩
  · rintro ⟨rfl, hp⟩
    exact ⟨power, hp, rfl⟩

/-- Where the schedule's last entry stops, if it says so. -/
def coverageEnd (entries : List PMaxScheduleEntry) : Option UInt32 := do
  let entry ← entries.getLast?
  match entry.choice with
  | .relativeTimeInterval interval => interval.duration.map (saturatingAdd interval.start)
  | .timeInterval => none

section Last

variable {entries : List PMaxScheduleEntry} {entry : PMaxScheduleEntry}
  {interval : RelativeTimeInterval}

theorem coverageEnd_concat (h : entry.choice = .relativeTimeInterval interval) :
    coverageEnd (entries ++ [entry]) = interval.duration.map (saturatingAdd interval.start) := by
  unfold coverageEnd
  rw [List.getLast?_concat]
  show (match entry.choice with
    | .relativeTimeInterval interval => interval.duration.map (saturatingAdd interval.start)
    | .timeInterval => none) = _
  rw [h]

theorem lastDuration_concat (h : entry.choice = .relativeTimeInterval interval) :
    lastDuration (entries ++ [entry]) = interval.duration := by
  unfold lastDuration
  rw [List.getLast?_concat]
  show (match entry.choice with
    | .relativeTimeInterval interval => interval.duration
    | .timeInterval => none) = _
  rw [h]

end Last

/-- What the schedule's entries come to. -/
theorem scheduleSteps_eq_ok {tuple : SAScheduleTuple} {steps : List Step} :
    scheduleSteps tuple = .ok steps ↔
      ∃ points, Stated PMaxScheduleEntry.States tuple.pMaxSchedule points
        ∧ steps = lay (coverageEnd tuple.pMaxSchedule) points := by
  -- what one entry says
  have hread : ∀ i entry start power, readPMax i entry = .ok (start, power) ↔
      PMaxScheduleEntry.States entry start power := by
    intro i entry start power
    unfold readPMax PMaxScheduleEntry.States
    split
    · next hchoice =>
      rw [hchoice]
      exact iff_of_false nofun fun ⟨duration, h, _⟩ => by cases h
    · next interval hchoice =>
      rw [hchoice, bind_eq_ok]
      constructor
      · rintro ⟨p, hp, hpair⟩
        cases hpair
        exact ⟨interval.duration, rfl, hp⟩
      · rintro ⟨duration, hinterval, hp⟩
        cases hinterval
        exact ⟨power, hp, rfl⟩
  -- the duration of the last entry becomes the end of the last step
  have hclose {points : List (UInt32 × Milliwatts)}
      (h : Stated PMaxScheduleEntry.States tuple.pMaxSchedule points) :
      (match lastDuration tuple.pMaxSchedule with
        | some duration => (return closeLast (lay none points) duration : Except ProfileError _)
        | none => return lay none points) = .ok (lay (coverageEnd tuple.pMaxSchedule) points) := by
    rcases eq_nil_or_last h.each with ⟨hentries, rfl⟩ | ⟨entries, entry, earlier, point, hentries,
      rfl, duration, hchoice, -⟩
    · rw [hentries]
      rfl
    · rw [hentries, lastDuration_concat hchoice, coverageEnd_concat hchoice]
      cases duration with
      | none => rfl
      | some duration =>
        show Except.ok (closeLast (lay none (earlier ++ [(point.1, point.2)])) duration)
          = Except.ok
              (lay (some (saturatingAdd point.1 duration)) (earlier ++ [(point.1, point.2)]))
        rw [lay_concat, lay_concat, closeLast, List.getLast?_concat, List.dropLast_concat]
  -- the entries are read one after another, and the last is closed
  unfold scheduleSteps
  rw [bind_eq_ok]
  constructor
  · rintro ⟨laid, hlaid, hsteps⟩
    obtain ⟨points, hpoints, rfl⟩ := (readSteps_eq_ok hread).mp hlaid
    rw [hclose hpoints] at hsteps
    exact ⟨points, hpoints, (Except.ok.inj hsteps).symm⟩
  · rintro ⟨points, hpoints, rfl⟩
    exact ⟨_, (readSteps_eq_ok hread).mpr ⟨points, hpoints, rfl⟩, hclose hpoints⟩

end Iso15118.Session.Iso2.Schedule
