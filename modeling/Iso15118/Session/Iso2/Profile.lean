import Iso15118.Session.Iso2.Schedule
import Mathlib.Order.MinMax

/-!
# What the profile check decides

The two lists are compared interval by interval. Where the vehicle wants more than the station
permits is a matter of single offsets, and the comparison finds the first of them:

* **`Exceeds`** — at this offset an entry of the profile is active, the schedule states a limit,
  and the entry's power is over it;
* **`checkProfile_eq_error`** — the pair of steps the comparison stops at;
* **`Step.overlaps_or_top`**, **`Step.active_of_overlaps`** — two steps overlap where both are
  active, but for the last offset there is and for a step without length;
* **`sound_iff`** — a profile that is accepted exceeds nothing, but for one that exceeds at the
  last offset;
* **`exact_iff`** — a profile that is refused exceeds at the offset that is named, and nowhere
  before, but for one that crosses a last interval without length.
-/

namespace Iso15118.Session.Iso2.Schedule

open Iso15118.Lib

/-! ## What the messages say at one offset

The two messages as functions of an offset, without the lists of steps that the source makes of
them. -/

/-- The entry has started, and the next one has not. -/
def ChargingProfile.ActiveEntry (profile : ChargingProfile) (t : UInt32) (entry : ProfileEntry) :
    Prop :=
  ∃ before after, profile.profileEntry = before ++ entry :: after
    ∧ entry.chargingProfileEntryStart ≤ t
    ∧ ∀ next ∈ after.head?, t < next.chargingProfileEntryStart

/-- The power of the entry that is active. -/
def ChargingProfile.Draws (profile : ChargingProfile) (t : UInt32) (power : Milliwatts) : Prop :=
  ∃ entry, profile.ActiveEntry t entry
    ∧ powerMw entry.chargingProfileEntryMaxPower = .ok power

/-- The power wanted at `t` is over the limit stated for it. -/
def Exceeds (tuple : SAScheduleTuple) (profile : ChargingProfile) (t : UInt32) : Prop :=
  ∃ power limit, profile.Draws t power ∧ pmaxAt tuple t = .ok (some limit) ∧ limit < power

/-- The entries state their powers in watts, and each starts after the one before it. -/
def ChargingProfile.Readable (profile : ChargingProfile) : Prop :=
  ∃ points, Stated ProfileEntry.States profile.profileEntry points

def SAScheduleTuple.Readable (tuple : SAScheduleTuple) : Prop :=
  ∃ points, Stated PMaxScheduleEntry.States tuple.pMaxSchedule points

/-- The step is in force at `t`. -/
abbrev Step.Active (s : Step) (t : UInt32) : Prop := Lib.Active Step.start Step.stop s t

section Steps

variable {tuple : SAScheduleTuple} {profile : ChargingProfile} {limits wanted : List Step}
  {t : UInt32}

theorem ChargingProfile.Readable.exists_steps (h : profile.Readable) :
    ∃ wanted, profileSteps profile = .ok wanted := by
  obtain ⟨points, hpoints⟩ := h
  exact ⟨_, profileSteps_eq_ok.mpr ⟨points, hpoints, rfl⟩⟩

theorem SAScheduleTuple.Readable.exists_steps (h : tuple.Readable) :
    ∃ limits, scheduleSteps tuple = .ok limits := by
  obtain ⟨points, hpoints⟩ := h
  exact ⟨_, scheduleSteps_eq_ok.mpr ⟨points, hpoints, rfl⟩⟩

theorem readable_of_profileSteps (h : profileSteps profile = .ok wanted) : profile.Readable := by
  obtain ⟨points, hpoints, -⟩ := profileSteps_eq_ok.mp h
  exact ⟨points, hpoints⟩

theorem readable_of_scheduleSteps (h : scheduleSteps tuple = .ok limits) : tuple.Readable := by
  obtain ⟨points, hpoints, -⟩ := scheduleSteps_eq_ok.mp h
  exact ⟨points, hpoints⟩

theorem tiled_of_profileSteps (h : profileSteps profile = .ok wanted) :
    Tiled Step.start Step.stop wanted := by
  obtain ⟨points, hpoints, rfl⟩ := profileSteps_eq_ok.mp h
  exact tiled_lay hpoints.ordered

theorem tiled_of_scheduleSteps (h : scheduleSteps tuple = .ok limits) :
    Tiled Step.start Step.stop limits := by
  obtain ⟨points, hpoints, rfl⟩ := scheduleSteps_eq_ok.mp h
  exact tiled_lay hpoints.ordered

/-- A step that is laid has a length, or it is the last one and stops where that one does. -/
theorem lt_or_last {last : Option UInt32} {points : List (UInt32 × Milliwatts)}
    (h : points.IsChain fun a b => a.1 < b.1) {s : Step} (hs : s ∈ lay last points) {e : UInt32}
    (he : e ∈ s.stop) :
    s.start < e ∨ last = some e ∧ points.getLast? = some (s.start, s.power) := by
  induction points with
  | nil => cases hs
  | cons point points ih =>
    cases points with
    | nil =>
      obtain rfl := List.mem_singleton.mp hs
      exact .inr ⟨he, rfl⟩
    | cons next points =>
      obtain ⟨hlt, hchain⟩ := List.isChain_cons_cons.mp h
      rcases List.mem_cons.mp hs with rfl | hs
      · cases he
        exact .inl hlt
      · exact ih hchain hs

/-- Every step of the profile has a length. -/
theorem lt_of_mem_profileSteps (h : profileSteps profile = .ok wanted) {w : Step} (hw : w ∈ wanted)
    {e : UInt32} (he : e ∈ w.stop) : w.start < e := by
  obtain ⟨points, hpoints, rfl⟩ := profileSteps_eq_ok.mp h
  rcases lt_or_last hpoints.ordered hw he with hlt | ⟨hnone, -⟩
  · exact hlt
  · cases hnone

/-- So has every step of the schedule, but for a last one with a duration. -/
theorem lt_of_mem_scheduleSteps (h : scheduleSteps tuple = .ok limits) {l : Step} (hl : l ∈ limits)
    {e : UInt32} (he : e ∈ l.stop) :
    l.start < e ∨ (∃ lx, limits = lx ++ [l]) ∧ ∃ earlier last duration,
      tuple.pMaxSchedule = earlier ++ [last]
      ∧ last.choice = .relativeTimeInterval ⟨l.start, some duration⟩
      ∧ powerMw last.pMax = .ok l.power ∧ e = saturatingAdd l.start duration := by
  obtain ⟨points, hpoints, rfl⟩ := scheduleSteps_eq_ok.mp h
  rcases lt_or_last hpoints.ordered hl he with hlt | ⟨hend, hlast⟩
  · exact .inl hlt
  · refine .inr ?_
    rcases eq_nil_or_last hpoints.each with ⟨-, rfl⟩ | ⟨earlier, last, before, point, hentries, rfl,
      duration, hchoice, hpower⟩
    · cases hlast
    · rw [List.getLast?_concat] at hlast
      cases hlast
      have hstop : l.stop = some e := he
      refine ⟨⟨lay (some l.start) before, by rw [lay_concat, hend, ← hstop]⟩, ?_⟩
      · rw [hentries, coverageEnd_concat hchoice] at hend
        obtain ⟨duration, rfl, rfl⟩ := Option.map_eq_some_iff.mp hend
        exact ⟨earlier, last, duration, hentries, hchoice, hpower, rfl⟩

/-- A step without length is the last one: when it starts, no limit is stated any more. -/
theorem lt_start_of_empty (h : scheduleSteps tuple = .ok limits) {l l' : Step} (hl : l ∈ limits)
    {e : UInt32} (he : e ∈ l.stop) (hle : e ≤ l.start) (hl' : l' ∈ limits)
    (hlt' : Lib.Active Step.start Step.stop l' t) : t < l.start := by
  have htiled := tiled_of_scheduleSteps h
  rcases lt_of_mem_scheduleSteps h hl he with hlt | ⟨⟨lx, rfl⟩, -⟩
  · exact absurd hle (not_le.mpr hlt)
  · rcases List.mem_append.mp hl' with hl' | hl'
    · obtain ⟨xs, ys, rfl⟩ := List.append_of_mem hl'
      rw [List.append_assoc, List.cons_append] at htiled
      exact htiled.lt_of_active (List.mem_append_right _ (List.mem_singleton_self l)) hlt'
    · obtain rfl := List.mem_singleton.mp hl'
      exact absurd hle (not_le.mpr (hlt'.1.trans_lt (hlt'.2 e he)))

theorem exists_entry_of_mem_lay {entries : List PMaxScheduleEntry}
    {points : List (UInt32 × Milliwatts)} {last : Option UInt32} {l : Step}
    (h : List.Forall₂ (fun entry point => PMaxScheduleEntry.States entry point.1 point.2) entries
      points) (hl : l ∈ lay last points) : ∃ entry ∈ entries, entry.States l.start l.power := by
  induction h with
  | nil => cases hl
  | @cons entry point entries points hstates _ ih =>
    rcases List.mem_cons.mp hl with rfl | hl
    · exact ⟨entry, List.mem_cons_self, hstates⟩
    · obtain ⟨entry', hmem, hstates'⟩ := ih hl
      exact ⟨entry', List.mem_cons_of_mem _ hmem, hstates'⟩

/-- A step of the schedule is an entry of it. -/
theorem exists_entry_of_mem (h : scheduleSteps tuple = .ok limits) {l : Step} (hl : l ∈ limits) :
    ∃ entry ∈ tuple.pMaxSchedule, entry.States l.start l.power := by
  obtain ⟨points, hpoints, rfl⟩ := scheduleSteps_eq_ok.mp h
  exact exists_entry_of_mem_lay hpoints.each hl

/-! ## Steps that are active and entries that are

Reading a list gives it one step for each entry. The step that is active is that of the active
entry, by induction on the entries. -/

/-- The splits of a list at one of its entries. -/
theorem exists_split_cons {α : Type} {a : α} {l : List α} {Q : α → List α → Prop} :
    (∃ before b after, a :: l = before ++ b :: after ∧ Q b after)
      ↔ Q a l ∨ ∃ before b after, l = before ++ b :: after ∧ Q b after := by
  constructor
  · rintro ⟨before, b, after, heq, hq⟩
    cases before with
    | nil =>
      obtain ⟨rfl, rfl⟩ := List.cons.inj heq
      exact .inl hq
    | cons a' before =>
      obtain ⟨-, rfl⟩ := List.cons.inj heq
      exact .inr ⟨before, b, after, rfl, hq⟩
  · rintro (hq | ⟨before, b, after, rfl, hq⟩)
    · exact ⟨[], a, l, rfl, hq⟩
    · exact ⟨a :: before, b, after, rfl, hq⟩

/-- The entry that is active is the step that is. Induction on the entries. -/
theorem active_lay_iff {entries : List ProfileEntry} {points : List (UInt32 × Milliwatts)}
    (h : List.Forall₂ (fun entry point => ProfileEntry.States entry point.1 point.2) entries points)
    {start : UInt32} {power : Milliwatts} :
    (∃ before entry after, entries = before ++ entry :: after
      ∧ (entry.chargingProfileEntryStart ≤ t
        ∧ ∀ next ∈ after.head?, t < next.chargingProfileEntryStart) ∧ entry.States start power)
      ↔ ∃ w ∈ lay none points, w.Active t ∧ w.start = start ∧ w.power = power := by
  induction h with
  | nil =>
    refine iff_of_false ?_ ?_
    · rintro ⟨before, entry, after, heq, -⟩
      cases (List.append_eq_nil_iff.mp heq.symm).2
    · rintro ⟨w, hw, -⟩
      cases hw
  -- the window of the first entry ends where the next one starts
  | @cons entry point entries points hstates hrest ih =>
    rw [exists_split_cons, ih]
    have hhead : (∀ next ∈ entries.head?, t < next.chargingProfileEntryStart)
        ↔ ∀ e ∈ (points.head?.map Prod.fst).or none, t < e := by
      cases hrest with
      | nil => exact iff_of_true nofun nofun
      | cons hnext _ =>
        constructor
        · intro hlt e he
          cases he
          exact hnext.1 ▸ hlt _ rfl
        · intro hlt next hn
          cases hn
          exact hnext.1.symm ▸ hlt _ rfl
    show _ ↔ ∃ w ∈ _ :: lay none points, _
    rw [List.exists_mem_cons_iff]
    refine or_congr ?_ Iff.rfl
    rw [hhead, hstates.1]
    refine and_congr Iff.rfl ?_
    unfold ProfileEntry.States
    rw [hstates.1, hstates.2]
    exact and_congr Iff.rfl ⟨Except.ok.inj, congrArg _⟩

/-- The profile's entries at `t` are its steps at `t`. -/
theorem exists_activeEntry_iff (h : profileSteps profile = .ok wanted) {start : UInt32}
    {power : Milliwatts} :
    (∃ entry, profile.ActiveEntry t entry ∧ entry.States start power)
      ↔ ∃ w ∈ wanted, w.Active t ∧ w.start = start ∧ w.power = power := by
  obtain ⟨points, hpoints, rfl⟩ := profileSteps_eq_ok.mp h
  rw [← active_lay_iff hpoints.each]
  constructor
  · rintro ⟨entry, ⟨before, after, heq, hactive⟩, hstates⟩
    exact ⟨before, entry, after, heq, hactive, hstates⟩
  · rintro ⟨before, entry, after, heq, hactive, hstates⟩
    exact ⟨entry, ⟨before, after, heq, hactive⟩, hstates⟩

theorem draws_iff (h : profileSteps profile = .ok wanted) {power : Milliwatts} :
    profile.Draws t power ↔ ∃ w ∈ wanted, w.Active t ∧ w.power = power := by
  constructor
  · rintro ⟨entry, hactive, hpower⟩
    obtain ⟨w, hw, hwt, -, hwp⟩ := (exists_activeEntry_iff h).mp ⟨entry, hactive, rfl, hpower⟩
    exact ⟨w, hw, hwt, hwp⟩
  · rintro ⟨w, hw, hwt, hwp⟩
    obtain ⟨entry, hactive, hstates⟩ := (exists_activeEntry_iff h).mpr ⟨w, hw, hwt, rfl, hwp⟩
    exact ⟨entry, hactive, hstates.2⟩

/-- The limit at `t` is that of the step that is active. -/
theorem pmaxAt_eq_some_iff (h : scheduleSteps tuple = .ok limits) {limit : Milliwatts} :
    pmaxAt tuple t = .ok (some limit) ↔ ∃ l ∈ limits, l.Active t ∧ l.power = limit := by
  have htiled := tiled_of_scheduleSteps h
  have hactive : ∀ s : Step, (s.start ≤ t && s.stop.all fun stop => t < stop) = true
      ↔ Lib.Active Step.start Step.stop s t := by
    intro s
    unfold Lib.Active
    cases s.stop <;> simp
  have hfind : pmaxAt tuple t = .ok ((limits.find? fun s =>
      s.start ≤ t && s.stop.all fun stop => t < stop).map Step.power) := by
    unfold pmaxAt
    rw [h]
    rfl
  rw [hfind, Except.ok.injEq, Option.map_eq_some_iff]
  constructor
  · rintro ⟨l, hl, hpower⟩
    obtain ⟨hmem, hlt⟩ := (htiled.find?_eq_some hactive).mp hl
    exact ⟨l, hmem, hlt, hpower⟩
  · rintro ⟨l, hmem, hlt, hpower⟩
    exact ⟨l, (htiled.find?_eq_some hactive).mpr ⟨hmem, hlt⟩, hpower⟩

theorem exceeds_iff (hlimits : scheduleSteps tuple = .ok limits)
    (hwanted : profileSteps profile = .ok wanted) :
    Exceeds tuple profile t
      ↔ ∃ w ∈ wanted, ∃ l ∈ limits, w.Active t ∧ l.Active t ∧ l.power < w.power := by
  unfold Exceeds
  constructor
  · rintro ⟨power, limit, hdraws, hpmax, hlt⟩
    obtain ⟨w, hw, hwt, rfl⟩ := (draws_iff hwanted).mp hdraws
    obtain ⟨l, hl, hlt', rfl⟩ := (pmaxAt_eq_some_iff hlimits).mp hpmax
    exact ⟨w, hw, l, hl, hwt, hlt', hlt⟩
  · rintro ⟨w, hw, l, hl, hwt, hlt', hlt⟩
    exact ⟨w.power, l.power, (draws_iff hwanted).mpr ⟨w, hw, hwt, rfl⟩,
      (pmaxAt_eq_some_iff hlimits).mpr ⟨l, hl, hlt', rfl⟩, hlt⟩

end Steps

/-! ## Overlapping and being active together

The source compares ends and starts; being active together is about points. The two differ where
a step has no length and at the last offset there is. -/

theorem le_u32Max (t : UInt32) : t ≤ u32Max := by
  rw [UInt32.le_iff_toNat_le]
  exact Nat.le_of_lt_succ t.toNat_lt

/-- The two steps overlap, and more is wanted than permitted. -/
def Excess (want limit : Step) : Prop := want.overlaps limit = true ∧ limit.power < want.power

namespace Step

variable {s other : Step} {t : UInt32}

theorem overlaps_iff :
    s.overlaps other = true
      ↔ s.start < other.stop.getD u32Max ∧ other.start < s.stop.getD u32Max := by
  unfold overlaps
  simp

theorem overlapStart_eq_max : s.overlapStart other = max s.start other.start := by
  unfold overlapStart
  split
  · next h => exact (max_eq_left h.le).symm
  · next h => exact (max_eq_right (not_lt.mp h)).symm

/-- The end that stands in for none is an end at the last offset. -/
theorem Active.lt_getD (h : s.Active t) (ht : t < u32Max) : t < s.stop.getD u32Max := by
  cases hs : s.stop with
  | none => exact ht
  | some e => exact h.2 e hs

/-- Where both steps are active they overlap, but for the last offset, which a step that starts
there has to itself. -/
theorem overlaps_or_top (hs : s.Active t) (ho : other.Active t) :
    s.overlaps other = true ∨ t = u32Max ∧ (s.start = u32Max ∨ other.start = u32Max) := by
  rw [overlaps_iff]
  by_cases hmax : max s.start other.start < u32Max
  · have hs' := Active.lt_getD (hs.max_right ho) hmax
    have ho' := Active.lt_getD (hs.max_left ho) hmax
    exact .inl ⟨(le_max_left _ _).trans_lt ho', (le_max_right _ _).trans_lt hs'⟩
  · have htop : max s.start other.start = u32Max := le_antisymm (le_u32Max _) (not_lt.mp hmax)
    refine .inr ⟨le_antisymm (le_u32Max t) (htop ▸ max_le hs.1 ho.1), ?_⟩
    rcases max_choice s.start other.start with h | h
    · exact .inl (h ▸ htop)
    · exact .inr (h ▸ htop)

/-- Steps that overlap start before the last offset. -/
theorem max_lt_of_overlaps (h : s.overlaps other = true) : max s.start other.start < u32Max := by
  obtain ⟨hs, ho⟩ := overlaps_iff.mp h
  exact max_lt (hs.trans_le (le_u32Max _)) (ho.trans_le (le_u32Max _))

/-- Steps that overlap are active together from the later start on, if they have a length. -/
theorem active_of_overlaps (h : s.overlaps other = true) (hs : ∀ e ∈ s.stop, s.start < e) :
    s.Active (max s.start other.start) := by
  obtain ⟨-, ho⟩ := overlaps_iff.mp h
  refine ⟨le_max_left _ _, fun e he => max_lt (hs e he) ?_⟩
  rwa [he] at ho

theorem overlaps_comm : s.overlaps other = other.overlaps s := by
  rw [Bool.eq_iff_iff, overlaps_iff, overlaps_iff]
  exact and_comm

end Step

/-! ## What the comparison comes to

The nested loops stop at the first pair with an excess, in the order of the steps. Since both
lists are tilings, that order is the order of the offsets. -/

theorem checkTurn_eq {want limit : Step} :
    (if want.overlaps limit = true ∧ limit.power < want.power then
      (.error (.exceedsPMax (want.overlapStart limit) want.power limit.power) :
        Except ProfileError Unit)
    else .ok ()) = .ok () ↔ ¬ Excess want limit := by
  rw [refuse_eq_ok]
  exact ⟨fun h => h.1, fun h => ⟨h, rfl⟩⟩

section Comparison

variable {tuple : SAScheduleTuple} {profile : ChargingProfile} {limits wanted : List Step}

theorem checkProfile_eq (hlimits : scheduleSteps tuple = .ok limits)
    (hwanted : profileSteps profile = .ok wanted) :
    checkProfile tuple profile = wanted.forM fun want => limits.forM fun limit =>
      if want.overlaps limit ∧ limit.power < want.power then
        .error (.exceedsPMax (want.overlapStart limit) want.power limit.power)
      else .ok () := by
  unfold checkProfile
  rw [hlimits, hwanted]
  rfl

theorem checkProfile_eq_ok (hlimits : scheduleSteps tuple = .ok limits)
    (hwanted : profileSteps profile = .ok wanted) :
    checkProfile tuple profile = .ok () ↔ ∀ w ∈ wanted, ∀ l ∈ limits, ¬ Excess w l := by
  rw [checkProfile_eq hlimits hwanted, forM_eq_ok]
  refine forall₂_congr fun w _ => ?_
  rw [forM_eq_ok]
  exact forall₂_congr fun l _ => checkTurn_eq

/-- The comparison stops at the first pair in which more is wanted than permitted. -/
theorem checkProfile_eq_error (hlimits : scheduleSteps tuple = .ok limits)
    (hwanted : profileSteps profile = .ok wanted) {e : ProfileError}
    (h : checkProfile tuple profile = .error e) :
    ∃ wx w wy lx l ly, wanted = wx ++ w :: wy ∧ limits = lx ++ l :: ly
      ∧ (∀ w' ∈ wx, ∀ l' ∈ limits, ¬ Excess w' l') ∧ (∀ l' ∈ lx, ¬ Excess w l') ∧ Excess w l
      ∧ e = .exceedsPMax (max w.start l.start) w.power l.power := by
  rw [checkProfile_eq hlimits hwanted, forM_eq_error] at h
  obtain ⟨wx, w, wy, rfl, hbefore, hw⟩ := h
  obtain ⟨lx, l, ly, rfl, hrow, hl⟩ := forM_eq_error.mp hw
  refine ⟨wx, w, wy, lx, l, ly, rfl, rfl, fun w' hw' l' hl' => ?_,
    fun l' hl' => checkTurn_eq.mp (hrow l' hl'), ?_⟩
  · exact checkTurn_eq.mp (forM_eq_ok.mp (hbefore w' hw') l' hl')
  · rw [← Step.overlapStart_eq_max]
    split at hl
    · next hexcess => exact ⟨hexcess, (Except.error.inj hl).symm⟩
    · cases hl

/-- What is accepted has been read. -/
theorem exists_steps_of_ok (h : checkProfile tuple profile = .ok ()) :
    ∃ limits wanted, scheduleSteps tuple = .ok limits ∧ profileSteps profile = .ok wanted := by
  obtain ⟨limits, hlimits, h⟩ := bind_eq_ok.mp h
  obtain ⟨wanted, hwanted, -⟩ := bind_eq_ok.mp h
  exact ⟨limits, wanted, hlimits, hwanted⟩

section Faults

variable {offset : UInt32} {requested permitted : Milliwatts}

theorem powerMw_ne_exceedsPMax {value : PhysicalValue} :
    powerMw value ≠ .error (.exceedsPMax offset requested permitted) := by
  unfold powerMw
  intro h
  split at h
  · cases h
  · dsimp only at h
    split at h
    · cases h
    · cases h

theorem readSteps_ne_error {α : Type}
    {read : Nat → α → Except ProfileError (UInt32 × Milliwatts)} {outOfOrder : Nat → ProfileError}
    {e : ProfileError} (hread : ∀ i a, read i a ≠ .error e) (horder : ∀ i, outOfOrder i ≠ e)
    (entries : List α) : readSteps read outOfOrder entries ≠ .error e := by
  refine foldlM_ne_error (fun steps entry => bind_ne_error (hread _ _) fun point => ?_) _ _
  show pushStep _ steps point.1 point.2 ≠ _
  unfold pushStep
  split
  · split
    · exact fun h => horder _ (Except.error.inj h)
    · exact nofun
  · exact nofun

/-- What is wrong with the lists themselves is reported as that. -/
theorem scheduleSteps_ne_exceedsPMax :
    scheduleSteps tuple ≠ .error (.exceedsPMax offset requested permitted) := by
  unfold scheduleSteps
  refine bind_ne_error (readSteps_ne_error (fun i entry => ?_) (fun i => ?_) _) fun steps => ?_
  · unfold readPMax
    split
    · exact nofun
    · exact bind_ne_error powerMw_ne_exceedsPMax fun power => nofun
  · exact nofun
  · split
    · exact nofun
    · exact nofun

theorem profileSteps_ne_exceedsPMax :
    profileSteps profile ≠ .error (.exceedsPMax offset requested permitted) := by
  unfold profileSteps
  refine readSteps_ne_error (fun i entry => ?_) (fun i => ?_) _
  · exact bind_ne_error powerMw_ne_exceedsPMax fun power => nofun
  · exact nofun

theorem exists_steps_of_exceedsPMax
    (h : checkProfile tuple profile = .error (.exceedsPMax offset requested permitted)) :
    ∃ limits wanted, scheduleSteps tuple = .ok limits ∧ profileSteps profile = .ok wanted := by
  unfold checkProfile at h
  cases hlimits : scheduleSteps tuple with
  | error e =>
    rw [hlimits] at h
    cases h
    exact absurd hlimits scheduleSteps_ne_exceedsPMax
  | ok limits =>
    cases hwanted : profileSteps profile with
    | error e =>
      rw [hlimits, hwanted] at h
      cases h
      exact absurd hwanted profileSteps_ne_exceedsPMax
    | ok wanted => exact ⟨limits, wanted, rfl, rfl⟩

end Faults

end Comparison

/-! ## Accepted profiles

Where no pair is bad, no offset is, up to the last one. -/

/-- A profile that is accepted is nowhere over a limit that is stated. -/
def Sound (tuple : SAScheduleTuple) (profile : ChargingProfile) : Prop :=
  checkProfile tuple profile = .ok () → ∀ t power limit, profile.Draws t power →
    pmaxAt tuple t = .ok (some limit) → power ≤ limit

/-- The profile goes over the limit at the last offset there is, with an entry that starts at it,
and not before. -/
structure ExceedsAtTop (tuple : SAScheduleTuple) (profile : ChargingProfile) : Prop where
  readable : profile.Readable
  starts : (∃ entry ∈ profile.profileEntry, entry.chargingProfileEntryStart = u32Max)
    ∨ ∃ entry ∈ tuple.pMaxSchedule, ∃ duration,
      entry.choice = .relativeTimeInterval ⟨u32Max, duration⟩
  exceeds : Exceeds tuple profile u32Max
  first : ∀ t < u32Max, ¬ Exceeds tuple profile t

section Verdict

variable {tuple : SAScheduleTuple} {profile : ChargingProfile} {limits wanted : List Step}

theorem Exceeds.exists_limits {t : UInt32} (h : Exceeds tuple profile t) :
    ∃ limits, scheduleSteps tuple = .ok limits := by
  obtain ⟨power, limit, -, hpmax, -⟩ := h
  obtain ⟨limits, hlimits, -⟩ := bind_eq_ok.mp hpmax
  exact ⟨limits, hlimits⟩

/-- A pair at which the comparison stops exceeds, if the limit's step has a length. -/
theorem exceeds_of_excess (hlimits : scheduleSteps tuple = .ok limits)
    (hwanted : profileSteps profile = .ok wanted) {w l : Step} (hw : w ∈ wanted) (hl : l ∈ limits)
    (h : Excess w l) (hlength : ∀ e ∈ l.stop, l.start < e) :
    w.Active (max w.start l.start) ∧ l.Active (max w.start l.start)
      ∧ Exceeds tuple profile (max w.start l.start) := by
  have hwt := Step.active_of_overlaps h.1 fun e he => lt_of_mem_profileSteps hwanted hw he
  have hlt := Step.active_of_overlaps (Step.overlaps_comm.symm.trans h.1) hlength
  rw [max_comm] at hlt
  exact ⟨hwt, hlt, (exceeds_iff hlimits hwanted).mpr ⟨w, hw, l, hl, hwt, hlt, h.2⟩⟩

end Verdict

/-- **Accepted is within the limits.** The check accepts no profile that is over a limit somewhere,
but for one that goes over at the last offset: there the end that stands in for no end is not
beyond the step that starts. -/
theorem sound_iff (tuple : SAScheduleTuple) (profile : ChargingProfile) :
    Sound tuple profile ↔ ¬ ExceedsAtTop tuple profile := by
  constructor
  · intro hsound htop
    obtain ⟨limits, hlimits⟩ := htop.exceeds.exists_limits
    obtain ⟨wanted, hwanted⟩ := htop.readable.exists_steps
    obtain ⟨power, limit, hdraws, hpmax, hlt⟩ := htop.exceeds
    refine absurd hlt (Int.not_lt.mpr (hsound ?_ u32Max power limit hdraws hpmax))
    rw [checkProfile_eq_ok hlimits hwanted]
    intro w hw l hl hexcess
    -- the steps overlap before the last offset, so they exceed there
    have hlength : ∀ e ∈ l.stop, l.start < e := by
      intro e he
      by_contra hle
      obtain ⟨l', hl', hlt', -⟩ := (pmaxAt_eq_some_iff hlimits).mp hpmax
      have htop' := lt_start_of_empty hlimits hl he (not_lt.mp hle) hl' hlt'
      exact absurd htop' (not_lt.mpr (le_u32Max _))
    obtain ⟨-, -, hexceeds⟩ := exceeds_of_excess hlimits hwanted hw hl hexcess hlength
    exact htop.first _ (Step.max_lt_of_overlaps hexcess.1) hexceeds
  · intro hnot hok
    obtain ⟨limits, wanted, hlimits, hwanted⟩ := exists_steps_of_ok hok
    have hnone := (checkProfile_eq_ok hlimits hwanted).mp hok
    -- the steps that exceed do not overlap
    have htop {t : UInt32} (h : Exceeds tuple profile t) : ∃ w ∈ wanted, ∃ l ∈ limits,
        w.Active t ∧ t = u32Max ∧ (w.start = u32Max ∨ l.start = u32Max) := by
      obtain ⟨w, hw, l, hl, hwt, hlt, hpower⟩ := (exceeds_iff hlimits hwanted).mp h
      rcases Step.overlaps_or_top hwt hlt with hoverlaps | ⟨ht, hstart⟩
      · exact absurd ⟨hoverlaps, hpower⟩ (hnone w hw l hl)
      · exact ⟨w, hw, l, hl, hwt, ht, hstart⟩
    intro t power limit hdraws hpmax
    by_contra hlt
    have hexceeds : Exceeds tuple profile t := ⟨power, limit, hdraws, hpmax, Int.not_le.mp hlt⟩
    obtain ⟨w, hw, l, hl, hwt, rfl, hstart⟩ := htop hexceeds
    refine hnot ⟨readable_of_profileSteps hwanted, ?_, hexceeds, fun t ht h => ?_⟩
    · rcases hstart with hstart | hstart
      · obtain ⟨entry, ⟨before, after, heq, -⟩, hstates⟩ :=
          (exists_activeEntry_iff hwanted).mpr ⟨w, hw, hwt, rfl, rfl⟩
        exact .inl ⟨entry, by rw [heq]; simp, hstates.1.trans hstart⟩
      · obtain ⟨entry, hentry, duration, hchoice, -⟩ := exists_entry_of_mem hlimits hl
        rw [hstart] at hchoice
        exact .inr ⟨entry, hentry, duration, hchoice⟩
    · obtain ⟨-, -, -, -, -, rfl, -⟩ := htop h
      exact absurd ht (lt_irrefl _)

/-! ## Refused profiles

The pair that was found starts at the earliest bad offset, unless one of its steps is never in
force. -/

/-- An excess that is reported is the earliest there is, and a profile without one is accepted. -/
structure Exact (tuple : SAScheduleTuple) (profile : ChargingProfile) : Prop where
  reported : ∀ offset requested permitted,
    checkProfile tuple profile = .error (.exceedsPMax offset requested permitted) →
    IsLeast {t | Exceeds tuple profile t} offset ∧ profile.Draws offset requested
      ∧ pmaxAt tuple offset = .ok (some permitted) ∧ permitted < requested
  accepted : tuple.Readable → profile.Readable → (∀ t, ¬ Exceeds tuple profile t) →
    checkProfile tuple profile = .ok ()

/-- The schedule's last interval ends when it starts, and an entry of the profile that has begun
before goes on past that offset with more power than it states. -/
def Crosses (tuple : SAScheduleTuple) (profile : ChargingProfile) : Prop :=
  ∃ earlier last start limit entry power, tuple.pMaxSchedule = earlier ++ [last]
    ∧ last.choice = .relativeTimeInterval ⟨start, some 0⟩ ∧ powerMw last.pMax = .ok limit
    ∧ start < u32Max ∧ profile.ActiveEntry start entry ∧ entry.chargingProfileEntryStart < start
    ∧ powerMw entry.chargingProfileEntryMaxPower = .ok power ∧ limit < power

/-- That is all there is to refuse. -/
structure CrossesEmpty (tuple : SAScheduleTuple) (profile : ChargingProfile) : Prop where
  offered : tuple.Readable
  readable : profile.Readable
  within : ∀ t, ¬ Exceeds tuple profile t
  crosses : Crosses tuple profile

theorem saturatingAdd_zero (a : UInt32) : saturatingAdd a 0 = a := by
  unfold saturatingAdd
  rw [if_pos (by simpa using a.toNat_lt)]
  exact UInt32.add_zero a

theorem eq_zero_of_saturatingAdd_le {a d : UInt32} (h : saturatingAdd a d ≤ a) (ha : a < u32Max) :
    d = 0 := by
  unfold saturatingAdd at h
  split at h
  · next hlt =>
    rw [UInt32.le_iff_toNat_le, UInt32.toNat_add, Nat.mod_eq_of_lt hlt] at h
    exact UInt32.toNat_inj.mp (Nat.le_zero.mp (by omega))
  · exact absurd ha (not_lt.mpr h)

section Verdict

variable {tuple : SAScheduleTuple} {profile : ChargingProfile} {limits wanted : List Step}

/-- The steps at which such a profile is refused. -/
theorem Crosses.exists_excess (h : Crosses tuple profile)
    (hlimits : scheduleSteps tuple = .ok limits) (hwanted : profileSteps profile = .ok wanted) :
    ∃ w ∈ wanted, ∃ l ∈ limits, Excess w l := by
  obtain ⟨earlier, last, start, limit, entry, power, hentries, hchoice, hlimit, htop, hactive,
    hbegun, hpower, hlt⟩ := h
  obtain ⟨w, hw, hwt, hstart, hwp⟩ :=
    (exists_activeEntry_iff hwanted).mp ⟨entry, hactive, rfl, hpower⟩
  obtain ⟨points, hpoints, rfl⟩ := scheduleSteps_eq_ok.mp hlimits
  rcases eq_nil_or_last hpoints.each with ⟨hnil, -⟩ | ⟨earlier', last', before, point, hentries',
    rfl, duration, hchoice', hlimit'⟩
  · rw [hnil] at hentries
    cases (List.append_eq_nil_iff.mp hentries.symm).2
  · rw [hentries] at hentries'
    obtain ⟨-, hlast⟩ := List.append_inj' hentries' rfl
    obtain rfl := List.singleton_inj.mp hlast
    obtain ⟨offset, permitted⟩ := point
    rw [hchoice] at hchoice'
    rw [hlimit] at hlimit'
    cases hchoice'
    cases hlimit'
    refine ⟨w, hw, ⟨offset, some offset, permitted⟩, ?_, Step.overlaps_iff.mpr ⟨?_, ?_⟩, ?_⟩
    · have hend : coverageEnd (earlier ++ [last]) = some offset :=
        (coverageEnd_concat hchoice).trans (congrArg some (saturatingAdd_zero offset))
      rw [hentries, lay_concat, hend]
      exact List.mem_append_right _ (List.mem_singleton_self _)
    · rw [hstart]
      exact hbegun
    · exact Step.Active.lt_getD hwt htop
    · rw [hwp]
      exact hlt

/-- **The pair that is reported.** Either it exceeds, and earlier than any other, or its limit has
no length and nothing exceeds. -/
theorem isLeast_or_crosses (hlimits : scheduleSteps tuple = .ok limits)
    (hwanted : profileSteps profile = .ok wanted) {offset : UInt32}
    {requested permitted : Milliwatts}
    (h : checkProfile tuple profile = .error (.exceedsPMax offset requested permitted)) :
    (IsLeast {t | Exceeds tuple profile t} offset ∧ profile.Draws offset requested
      ∧ pmaxAt tuple offset = .ok (some permitted) ∧ permitted < requested)
      ∨ CrossesEmpty tuple profile := by
  have hw := tiled_of_profileSteps hwanted
  have hl := tiled_of_scheduleSteps hlimits
  obtain ⟨wx, w, wy, lx, l, ly, hws, hls, hbefore, hrow, hexcess, he⟩ :=
    checkProfile_eq_error hlimits hwanted h
  cases he
  have hwmem : w ∈ wanted := by
    rw [hws]
    exact List.mem_append_right _ List.mem_cons_self
  have hlmem : l ∈ limits := by
    rw [hls]
    exact List.mem_append_right _ List.mem_cons_self
  -- either the limit's step has a length, and is in force when the two begin to overlap
  by_cases hlength : ∀ e ∈ l.stop, l.start < e
  · refine .inl ?_
    obtain ⟨hwt, hlt, hexceeds⟩ := exceeds_of_excess hlimits hwanted hwmem hlmem hexcess hlength
    -- nothing is bad before: a bad offset is inside a pair that overlaps, and this is the first
    refine ⟨⟨hexceeds, fun t ht => ?_⟩, (draws_iff hwanted).mpr ⟨w, hwmem, hwt, rfl⟩,
      (pmaxAt_eq_some_iff hlimits).mpr ⟨l, hlmem, hlt, rfl⟩, hexcess.2⟩
    obtain ⟨w', hw', l', hl', hwt', hlt', hpower⟩ := (exceeds_iff hlimits hwanted).mp ht
    rcases Step.overlaps_or_top hwt' hlt' with hoverlaps | ⟨rfl, -⟩
    · exact (hw.isLeast_of_first hl hws hls hexcess hwt hlt hbefore hrow).2
        ⟨w', hw', l', hl', hwt', hlt', hoverlaps, hpower⟩
    · exact le_u32Max _
  -- or it has none: then it is the last entry of the schedule, with a duration of zero
  · refine .inr ?_
    push Not at hlength
    obtain ⟨e, he, hle⟩ := hlength
    rcases lt_of_mem_scheduleSteps hlimits hlmem he with hlt | ⟨-, earlier, last, duration,
      hentries, hchoice, hlimit, rfl⟩
    · exact absurd hle (not_le.mpr hlt)
    · -- the limit's step has no length, and the wanted one is active when it starts
      have hstop : l.stop = some (saturatingAdd l.start duration) := he
      have htop := (le_max_right _ _).trans_lt (Step.max_lt_of_overlaps hexcess.1)
      obtain rfl := eq_zero_of_saturatingAdd_le hle htop
      rw [saturatingAdd_zero] at hstop
      obtain ⟨hbegun, hgoes⟩ := Step.overlaps_iff.mp hexcess.1
      rw [hstop] at hbegun
      have hwt : w.Active l.start := by
        refine ⟨hbegun.le, fun e he => ?_⟩
        rwa [show w.stop = some e from he] at hgoes
      obtain ⟨entry, hactive, hstates⟩ := (exists_activeEntry_iff hwanted).mpr
        ⟨w, hwmem, hwt, rfl, rfl⟩
      refine ⟨readable_of_scheduleSteps hlimits, readable_of_profileSteps hwanted, fun t ht => ?_,
        earlier, last, l.start, l.power, entry, w.power, hentries, hchoice, hlimit, htop, hactive,
        hstates.1.symm ▸ hbegun, hstates.2, hexcess.2⟩
      -- what exceeds does so before that start, and so comes first
      obtain ⟨w', hw', l', hl', hwt', hlt', hpower⟩ := (exceeds_iff hlimits hwanted).mp ht
      have hearlier := lt_start_of_empty hlimits hlmem hstop le_rfl hl' hlt'
      have hexcess' : Excess w' l' := by
        rcases Step.overlaps_or_top hwt' hlt' with hoverlaps | ⟨rfl, -⟩
        · exact ⟨hoverlaps, hpower⟩
        · exact absurd hearlier (not_lt.mpr (le_u32Max _))
      rw [hws] at hw hw'
      rcases List.mem_append.mp hw' with hw' | hw'
      · exact hbefore w' hw' l' hl' hexcess'
      · rcases List.mem_cons.mp hw' with rfl | hw'
        · rw [hls] at hl hl'
          rcases List.mem_append.mp hl' with hl' | hl'
          · exact hrow l' hl' hexcess'
          · rcases List.mem_cons.mp hl' with rfl | hl'
            · exact absurd hearlier (not_lt.mpr hlt'.1)
            · exact absurd hearlier (not_lt.mpr ((hl.start_lt hl').le.trans hlt'.1))
        · exact absurd hearlier (not_lt.mpr ((hw.lt_of_active hw' hwt).le.trans hwt'.1))

end Verdict

/-- **Refused is over the limit.** The check names the earliest offset at which the profile is over
a limit, and the two powers there, and refuses no other profile that can be read, but for one that
is over the limit of a last interval without length. -/
theorem exact_iff (tuple : SAScheduleTuple) (profile : ChargingProfile) :
    Exact tuple profile ↔ ¬ CrossesEmpty tuple profile := by
  constructor
  · intro hexact hcrosses
    obtain ⟨limits, hlimits⟩ := hcrosses.offered.exists_steps
    obtain ⟨wanted, hwanted⟩ := hcrosses.readable.exists_steps
    obtain ⟨w, hw, l, hl, hexcess⟩ := hcrosses.crosses.exists_excess hlimits hwanted
    have hok := hexact.accepted hcrosses.offered hcrosses.readable hcrosses.within
    exact (checkProfile_eq_ok hlimits hwanted).mp hok w hw l hl hexcess
  · intro hnot
    have hreported : ∀ offset requested permitted,
        checkProfile tuple profile = .error (.exceedsPMax offset requested permitted) →
        IsLeast {t | Exceeds tuple profile t} offset ∧ profile.Draws offset requested
          ∧ pmaxAt tuple offset = .ok (some permitted) ∧ permitted < requested := by
      intro offset requested permitted h
      obtain ⟨limits, wanted, hlimits, hwanted⟩ := exists_steps_of_exceedsPMax h
      exact (isLeast_or_crosses hlimits hwanted h).resolve_right hnot
    refine ⟨hreported, fun hoffered hreadable hwithin => ?_⟩
    obtain ⟨limits, hlimits⟩ := hoffered.exists_steps
    obtain ⟨wanted, hwanted⟩ := hreadable.exists_steps
    cases hcheck : checkProfile tuple profile with
    | ok u => rfl
    | error e =>
      obtain ⟨wx, w, wy, lx, l, ly, -, -, -, -, -, he⟩ :=
        checkProfile_eq_error hlimits hwanted hcheck
      rw [he] at hcheck
      exact absurd (hreported _ _ _ hcheck).1.1 (hwithin _)

/-! ## The two profiles that are judged wrongly

One for each direction, in the units of the messages. -/

namespace Sample

/-- `value` watts. -/
def watts (value : Int16) : PhysicalValue := ⟨0, .w, value⟩

/-- An entry of a schedule, with its start and its duration. -/
def permits (start : UInt32) (duration : Option UInt32) (value : Int16) : PMaxScheduleEntry :=
  ⟨.relativeTimeInterval ⟨start, duration⟩, watts value⟩

/-- Eleven kilowatts without end. -/
def endless : SAScheduleTuple := ⟨1, [permits 0 none 11000]⟩

/-- Within the limit, until the last offset there is. -/
def late : ChargingProfile := ⟨[⟨0, watts 7400⟩, ⟨u32Max, watts 22000⟩]⟩

/-- Eleven kilowatts for half an hour, and then a lower limit for no time at all. -/
def halfHour : SAScheduleTuple := ⟨1, [permits 0 none 11000, permits 1800 (some 0) 3700]⟩

/-- Within the limit as long as there is one. -/
def steady : ChargingProfile := ⟨[⟨0, watts 7400⟩]⟩

end Sample

/-- The limit at the last offset is eleven kilowatts, and twenty-two are accepted there. -/
theorem not_sound_late : ¬ Sound Sample.endless Sample.late := by
  intro hsound
  have hdraws : Sample.late.Draws u32Max 22000000 :=
    ⟨⟨u32Max, Sample.watts 22000⟩, ⟨[⟨0, Sample.watts 7400⟩], [], rfl, by decide, nofun⟩,
      by decide +kernel⟩
  have hle := hsound (by decide +kernel) u32Max 22000000 11000000 hdraws (by decide +kernel)
  exact absurd hle (by decide)

/-- The profile is refused for what it draws at an offset for which no limit is stated. -/
theorem not_exact_halfHour : ¬ Exact Sample.halfHour Sample.steady := by
  intro hexact
  have hpmax := (hexact.reported 1800 7400000 3700000 (by decide +kernel)).2.2.1
  have hnone : pmaxAt Sample.halfHour 1800 = .ok none := by decide +kernel
  rw [hnone] at hpmax
  cases hpmax

end Iso15118.Session.Iso2.Schedule
