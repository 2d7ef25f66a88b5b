import Iso15118.Slac.Vehicle.KeyBinding

/-!
# What a vehicle sends in a run

A run of the vehicle needs sixteen frames and the queue holds sixteen, so a frame is lost as soon
as one transition is taken twice. None is: whatever arrives and whenever the clock is advanced, a
run sends the frames of one script, in order, up to where it ended.

* **`Ev.script`** — the frames of a whole run;
* **`Ev.Reached`** — how many of them a vehicle has sent, read off its state;
* **`Ev.Progress`**, **`Ev.progress_call`** — every call keeps the two in step;
* **`Ev.frames_of_run`** — the frames of a run are the script up to there.
-/

namespace Iso15118.Slac.Ev

open Iso15118.Lib Iso15118.Session

/-! ## What a frame says

Frames are compared by what they say, not as bytes. -/

/-- Where a frame goes, and the message in it with the address it is from. -/
def said (o : Outgoing) : MacAddr × Option (MacAddr × Message) := (o.destination, receive o.frame)

theorem said_of_carries {o : Outgoing} {destination source : MacAddr} {m : Message}
    (h : o.Carries destination source m.mmtype m.fields.flatten)
    (hgroups : ∀ ind, m = .attenInd ind → ind.profile.numGroups.toNat ≤ aagLen) :
    said o = (destination, some (source, m)) := by
  unfold said
  rw [h.destination_eq, h.receive_eq hgroups]

/-! ## The script

The frames of one whole run. Which station is picked shows in the last two of them alone. -/

/-- A sounding packet with `remaining` packets still to come after it. -/
def scriptSound (c : EvConfig) (remaining : Nat) : Message :=
  .sound ⟨c.id, UInt8.ofNat remaining, c.runId, c.soundingPayload⟩

/-- The frames of a run in which the station `mac`, `id` is picked: one request, three
announcements, ten sounding packets counting down, the acknowledgement and the request for the
key. -/
def script (c : EvConfig) (mac : MacAddr) (id : StationId) : List (MacAddr × Message) :=
  [(broadcast, .parmReq ⟨c.runId⟩)]
    ++ List.replicate 3
      (broadcast, .startAtten ⟨10, Timers.soundingTimeout, respType, c.mac, c.runId⟩)
    ++ (List.range 10).map (fun i => (broadcast, scriptSound c (9 - i)))
    ++ [(mac, .attenRsp ⟨c.mac, c.runId, c.id, id, 0⟩),
      (mac, .matchReq ⟨c.id, c.mac, id, mac, c.runId⟩)]

/-- The first `n` frames of the script, each from the vehicle. -/
def scripted (c : EvConfig) (mac : MacAddr) (id : StationId) (n : Nat) :
    List (MacAddr × Option (MacAddr × Message)) :=
  ((script c mac id).take n).map fun entry => (entry.1, some (c.mac, entry.2))

/-- How many frames of its script a vehicle has sent. A run that failed did so before the burst, at
the choice, or waiting for the key. -/
def Reached (s : Ev) (n : Nat) : Prop :=
  match s.state with
  | .idle => n = 0
  | .probing => n = 1
  | .sounding => n + s.remainingStarts.toNat + s.remainingSounds.toNat = 14
      ∧ s.remainingStarts.toNat ≤ 3 ∧ s.remainingSounds.toNat ≤ 10
      ∧ (s.remainingStarts.toNat > 0 → s.remainingSounds.toNat = 10)
  | .awaitingMeasurements => n = 14
  | .awaitingKey | .matched => n = 16
  | .failed => n = 1 ∨ n = 14 ∨ n = 16

theorem scripted_succ {c : EvConfig} {mac : MacAddr} {id : StationId} {n : Nat}
    {entry : MacAddr × Message} (h : (script c mac id)[n]? = some entry) :
    scripted c mac id (n + 1) = scripted c mac id n ++ [(entry.1, some (c.mac, entry.2))] := by
  unfold scripted
  rw [List.take_add_one, h, List.map_append]
  rfl

/-- Up to the choice the script does not depend on the station picked. -/
theorem scripted_eq_of_le {c : EvConfig} {mac mac' : MacAddr} {id id' : StationId} {n : Nat}
    (h : n ≤ 14) : scripted c mac id n = scripted c mac' id' n := by
  have hburst : (script c mac id).take 14 = (script c mac' id').take 14 := rfl
  unfold scripted
  have htake (m : MacAddr) (i : StationId) :
      (script c m i).take n = ((script c m i).take 14).take n := by
    rw [List.take_take, Nat.min_eq_left h]
  rw [htake mac id, htake mac' id', hburst]

/-! ## A call keeps script and state in step

The state says how far the run has got, and the counters of the burst say how far in it. Every
call leaves both as they were or sends the next frame. -/

/-- What was sent so far is the script up to where the state says, and the queue holds no more
than that. -/
structure Progress (c : EvConfig) (frames : List Outgoing) (s : Ev) : Prop where
  config : s.config = c
  sent : ∃ mac id n, Reached s n ∧ s.out.length ≤ n ∧ frames.map said = scripted c mac id n

section Step

variable {c : EvConfig} {frames : List Outgoing} {s s' : Ev} {call' : Call}

/-- A call that sends nothing and leaves the run where it was. -/
theorem Progress.keep (h : Progress c frames s) (hq : queued (taken call s call') = [])
    (hconfig : s'.config = s.config) (hout : s'.out.length ≤ s.out.length)
    (hreached : ∀ n, Reached s n → Reached s' n) :
    Progress c (frames ++ queued (taken call s call')) s' := by
  obtain ⟨mac, id, n, hn, hroom, hsent⟩ := h.sent
  refine ⟨hconfig.trans h.config, mac, id, n, hreached n hn, Nat.le_trans hout hroom, ?_⟩
  rw [hq, List.append_nil]
  exact hsent

/-- The next message of the burst is the next one of the script. -/
theorem progress_sendNextSound {s₁ : Ev} {now : Instant} {mac : MacAddr} {id : StationId} {n : Nat}
    (hc : ∀ t, call' ≠ .start t) (hcall : s.call call' = s₁.sendNextSound now)
    (hconfig : s₁.config = c) (hstate : s₁.state = .sounding) (hout : s₁.out = s.out)
    (hn : Reached s₁ n) (hroom : s₁.out.length ≤ n)
    (hsent : frames.map said = scripted c mac id n) :
    Progress c (frames ++ queued (taken call s call')) (s.call call') := by
  unfold Reached at hn
  rw [hstate] at hn
  obtain ⟨hcount, hthree, hten, horder⟩ := hn
  -- the counters say which of the three the next frame is, and where in the script it stands
  rcases s₁.sendNextSound_cases now with
    ⟨hstarts, o, hcarries, hsend⟩ | ⟨hnone, hsounds, o, hcarries, hsend⟩ | ⟨hnone, hover, hsend⟩
  · -- one of the three announcements
    obtain ⟨hpred, hpos⟩ := toNat_pred hstarts
    have hlt : s₁.out.length < maxPendingFrames := by
      unfold maxPendingFrames
      omega
    rw [pushed_of_lt hlt o] at hsend
    have hq : queued (taken call s call') = [o] := queued_of_append hc (by rw [hcall, hsend, hout])
    -- the announcements are the second, third and fourth entry, and all alike
    have hentry : (script c mac id)[n]? = some
        (broadcast, .startAtten ⟨10, Timers.soundingTimeout, respType, c.mac, c.runId⟩) := by
      have hrange : n = 1 ∨ n = 2 ∨ n = 3 := by omega
      rcases hrange with rfl | rfl | rfl
      · rfl
      · rfl
      · rfl
    rw [hcall, hsend]
    refine ⟨hconfig, mac, id, n + 1, ?_, ?_, ?_⟩
    · unfold Reached
      simp only [hstate, hpred]
      omega
    · rw [List.length_append, List.length_singleton]
      omega
    · rw [hq, List.map_append, hsent, scripted_succ hentry, ← hconfig]
      have hsaid := said_of_carries (m := .startAtten s₁.startAttenInd) hcarries (by simp)
      exact congrArg (scripted s₁.config mac id n ++ [·]) hsaid
  · -- one of the ten sounding packets
    obtain ⟨hpred, hpos⟩ := toNat_pred hsounds
    have hzero : s₁.remainingStarts.toNat = 0 := by
      by_contra hne
      exact hnone (UInt8.lt_iff_toNat_lt.mpr (Nat.pos_of_ne_zero hne))
    have hlt : s₁.out.length < maxPendingFrames := by
      unfold maxPendingFrames
      omega
    rw [pushed_of_lt hlt o] at hsend
    have hq : queued (taken call s call') = [o] := queued_of_append hc (by rw [hcall, hsend, hout])
    -- of the sounding packets each counts down to its own entry
    have hentry : (script c mac id)[n]? = some
        (broadcast, scriptSound c (s₁.remainingSounds.toNat - 1)) := by
      have hremaining : s₁.remainingSounds.toNat = 14 - n := by omega
      rw [hremaining]
      have hrange : n = 4 ∨ n = 5 ∨ n = 6 ∨ n = 7 ∨ n = 8 ∨ n = 9 ∨ n = 10 ∨ n = 11 ∨ n = 12
          ∨ n = 13 := by omega
      rcases hrange with rfl | rfl | rfl | rfl | rfl | rfl | rfl | rfl | rfl | rfl <;> rfl
    have hremaining : s₁.remainingSounds - 1 = UInt8.ofNat (s₁.remainingSounds.toNat - 1) := by
      rw [← hpred, UInt8.ofNat_toNat]
    rw [hcall, hsend]
    refine ⟨hconfig, mac, id, n + 1, ?_, ?_, ?_⟩
    · unfold Reached
      simp only [hstate, hpred]
      omega
    · rw [List.length_append, List.length_singleton]
      omega
    · rw [hq, List.map_append, hsent, scripted_succ hentry, ← hconfig]
      unfold scriptSound
      rw [← hremaining]
      have hsaid := said_of_carries (m := .sound _) hcarries (by simp)
      exact congrArg (scripted s₁.config mac id n ++ [·]) hsaid
  -- nothing is left to send, and the script is at its end
  · -- the end of the burst
    have hzero : s₁.remainingStarts.toNat = 0 ∧ s₁.remainingSounds.toNat = 0 := by
      constructor
      · by_contra hne
        exact hnone (UInt8.lt_iff_toNat_lt.mpr (Nat.pos_of_ne_zero hne))
      · by_contra hne
        exact hover (UInt8.lt_iff_toNat_lt.mpr (Nat.pos_of_ne_zero hne))
    have hq : queued (taken call s call') = [] :=
      queued_of_append hc (by rw [hcall, hsend, hout, List.append_nil])
    rw [hcall, hsend]
    refine ⟨hconfig, mac, id, n, ?_, hroom, ?_⟩
    · show n = 14
      omega
    · rw [hq, List.append_nil]
      exact hsent

/-- The choice sends the last two frames of the script, to the station it picks. -/
theorem progress_choose {s₁ : Ev} {now : Instant} {mac best : MacAddr} {id bestId : StationId}
    {mean : UInt8} (hc : ∀ t, call' ≠ .start t) (hcall : s.call call' = s₁.choose now)
    (hconfig : s₁.config = c) (hbest : s₁.best = some (best, bestId, mean)) (hout : s₁.out = s.out)
    (hroom : s₁.out.length ≤ 14) (hsent : frames.map said = scripted c mac id 14) :
    Progress c (frames ++ queued (taken call s call')) (s.call call') := by
  obtain ⟨o, o', hcarries, hcarries', hchoose⟩ := choose_eq hbest now
  have hpush : pushed (pushed s₁.out o) o' = s₁.out ++ [o, o'] := by
    rw [pushed_of_lt (by unfold maxPendingFrames; omega) o, pushed_of_lt ?_ o', List.append_assoc]
    · rfl
    · rw [List.length_append, List.length_singleton]
      unfold maxPendingFrames
      omega
  have hq : queued (taken call s call') = [o, o'] :=
    queued_of_append hc (by rw [hcall, hchoose, hpush, hout])
  rw [hcall, hchoose, hpush]
  refine ⟨hconfig, best, bestId, 16, rfl, ?_, ?_⟩
  · rw [List.length_append]
    show s₁.out.length + 2 ≤ 16
    omega
  · have hlast : scripted c best bestId 16 = scripted c best bestId 14
        ++ [(best, some (c.mac, .attenRsp ⟨c.mac, c.runId, c.id, bestId, 0⟩)),
          (best, some (c.mac, .matchReq ⟨c.id, c.mac, bestId, best, c.runId⟩))] := rfl
    have hsame : scripted c mac id 14 = scripted c best bestId 14 :=
      scripted_eq_of_le (Nat.le_refl 14)
    have hrsp := said_of_carries (m := .attenRsp _) hcarries (by simp)
    have hreq := said_of_carries (m := .matchReq _) hcarries' (by simp)
    rw [hconfig] at hrsp hreq
    rw [hq, List.map_append, hsent, hlast, hsame, List.map_cons, List.map_cons, List.map_nil,
      hrsp, hreq]
    unfold attenRsp matchReq
    rw [hconfig]

end Step

theorem sendNextSound_state_ne_failed {s : Ev} (now : Instant) (hs : s.state = .sounding) :
    (s.sendNextSound now).state ≠ .failed := by
  rcases s.sendNextSound_cases now with ⟨-, o, -, hsend⟩ | ⟨-, -, o, -, hsend⟩ | ⟨-, -, hsend⟩
  · rw [hsend]
    show s.state ≠ .failed
    rw [hs]
    decide
  · rw [hsend]
    show s.state ≠ .failed
    rw [hs]
    decide
  · rw [hsend]
    show EvState.awaitingMeasurements ≠ .failed
    decide

theorem handleTimeout_of_sounding {s : Ev} (now : Instant) (hs : s.state = .sounding) :
    s.handleTimeout now = s
      ∨ s.handleTimeout now = ({ s with deadline := none } : Ev).sendNextSound now := by
  unfold handleTimeout
  split
  · exact .inl rfl
  · right
    simp only
    rw [hs]

/-- A run in its burst, or matched, does not fail when the clock is advanced. -/
theorem reached_of_failed {s : Ev} {now : Instant} (h : (s.handleTimeout now).state = .failed)
    {n : Nat} (hn : Reached s n) (hidle : s.state ≠ .idle) : n = 1 ∨ n = 14 ∨ n = 16 := by
  unfold Reached at hn
  cases hs : s.state with
  | idle => exact absurd hs hidle
  | probing =>
    rw [hs] at hn
    exact .inl hn
  | sounding =>
    rcases handleTimeout_of_sounding now hs with hsame | hsend
    · rw [hsame, hs] at h
      cases h
    · rw [hsend] at h
      exact absurd h (sendNextSound_state_ne_failed (s := { s with deadline := none }) now hs)
  | awaitingMeasurements =>
    rw [hs] at hn
    exact .inr (.inl hn)
  | awaitingKey =>
    rw [hs] at hn
    exact .inr (.inr hn)
  | matched =>
    rw [hs] at hn
    exact .inr (.inr hn)
  | failed =>
    rw [hs] at hn
    exact hn

/-- **One call.** Whatever arrives and whenever the clock is advanced, a vehicle goes on with its
script. -/
theorem progress_call {c : EvConfig} {frames : List Outgoing} {s : Ev} {call' : Call}
    (hc : ∀ t, call' ≠ .start t) (h : Progress c frames s) :
    Progress c (frames ++ queued (taken call s call')) (s.call call') := by
  have heffect := effect_call s call'
  generalize hcall : s.call call' = s' at heffect
  have hquiet (hout : s'.out = s.out) : queued (taken call s call') = [] :=
    queued_of_append hc (by rw [hcall, hout, List.append_nil])
  -- most branches send nothing and leave the run where it was
  cases heffect with
  | quiet => exact h.keep (hquiet rfl) rfl (Nat.le_refl _) fun n hn => hn
  | waiting => exact h.keep (hquiet rfl) rfl (Nat.le_refl _) fun n hn => hn
  | @started now => exact absurd rfl (hc now)
  | found => exact h.keep (hquiet rfl) rfl (Nat.le_refl _) fun n hn => hn
  | tooFar => exact h.keep (hquiet rfl) rfl (Nat.le_refl _) fun n hn => hn
  | reported => exact h.keep (hquiet rfl) rfl (Nat.le_refl _) fun n hn => hn
  -- a key ends a run that has sent everything
  | keyed hr hs hb hsource =>
    refine h.keep (hquiet rfl) rfl (Nat.le_refl _) fun n hn => ?_
    unfold Reached at hn
    rw [hs] at hn
    exact hn
  -- a failure ends the run where it is
  | @ended now reason hs =>
    have hcall : s.handleTimeout now = ({ s with deadline := none } : Ev).fail reason := hcall
    have hfailed : (s.handleTimeout now).state = .failed := by
      rw [hcall]
      exact fail_state _ _
    have hsame : (({ s with deadline := none } : Ev).fail reason).out = s.out
        ∧ (({ s with deadline := none } : Ev).fail reason).config = s.config := by
      unfold fail
      split
      · exact ⟨rfl, rfl⟩
      · exact ⟨rfl, rfl⟩
    refine h.keep (hquiet hsame.1) hsame.2 (Nat.le_of_eq (by rw [hsame.1])) fun n hn => ?_
    unfold Reached
    rw [fail_state]
    exact reached_of_failed hfailed hn hs
  -- the burst begins with the first of its frames
  | begun hs =>
    obtain ⟨mac, id, n, hn, hroom, hsent⟩ := h.sent
    unfold Reached at hn
    rw [hs] at hn
    have hone : n = 1 := hn
    rw [← hcall]
    refine progress_sendNextSound hc hcall h.config rfl rfl ?_ hroom hsent
    rw [hone]
    -- one frame sent, and the whole burst to come
    show 1 + Timers.cEvStartAttenCharInds.toNat + Timers.cEvMatchMnbc.toNat = 14
      ∧ Timers.cEvStartAttenCharInds.toNat ≤ 3 ∧ Timers.cEvMatchMnbc.toNat ≤ 10
      ∧ (Timers.cEvStartAttenCharInds.toNat > 0 → Timers.cEvMatchMnbc.toNat = 10)
    decide
  -- the next message of the burst
  | sounded hs =>
    obtain ⟨mac, id, n, hn, hroom, hsent⟩ := h.sent
    rw [← hcall]
    exact progress_sendNextSound hc hcall h.config hs rfl hn hroom hsent
  -- the choice, behind fourteen frames
  | chosen hs hb =>
    obtain ⟨mac, id, n, hn, hroom, hsent⟩ := h.sent
    unfold Reached at hn
    rw [hs] at hn
    have hall : n = 14 := hn
    rw [hall] at hroom hsent
    rw [← hcall]
    exact progress_choose hc hcall h.config hb rfl hroom hsent
  | lapsed => exact h.keep (hquiet rfl) rfl (Nat.le_refl _) fun n hn => hn
  -- a frame taken out of the queue makes room, and was sent all the same
  | polledTransmit =>
    have hq : queued (taken call s .pollTransmit) = [] :=
      List.drop_eq_nil_of_le (by simp [taken, hcall])
    refine h.keep hq rfl ?_ fun n hn => hn
    rw [List.length_tail]
    exact Nat.sub_le _ _
  | polledEvent => exact h.keep (hquiet rfl) rfl (Nat.le_refl _) fun n hn => hn

/-! ## The frames of a run

From a start on, by the run rule: the queue never holds more than was sent, so it never
overflows. -/

/-- Every frame the calls queue, in order. -/
def frames (s : Ev) (calls : List Call) : List Outgoing :=
  outputs call (fun s c => queued (taken call s c)) s calls

/-- A started vehicle has sent the first frame of its script. -/
theorem progress_start (s : Ev) (now : Instant) :
    Progress s.config (queued (taken call s (.start now))) (s.start now) := by
  obtain ⟨o, hcarries, hstart⟩ := s.start_eq now
  have hq : queued (taken call s (.start now)) = [o] := by
    show (s.start now).out = [o]
    rw [hstart]
  refine ⟨by rw [hstart], broadcast, s.config.id, 1, ?_, ?_, ?_⟩
  · rw [hstart]
    rfl
  · rw [hstart]
    exact Nat.le_refl 1
  · have hsaid := said_of_carries (m := .parmReq _) hcarries (by simp)
    rw [hq, List.map_cons, List.map_nil, hsaid]
    rfl

/-- The calls after a start keep script and state in step. Induction on the calls, last one
first. -/
theorem progress_run (s : Ev) (now : Instant) (calls : List Call)
    (hcalls : ∀ c ∈ calls, ∀ t, c ≠ .start t) :
    Progress s.config (frames s (.start now :: calls)) (Lib.run call s (.start now :: calls)) := by
  induction calls using List.reverseRecOn with
  | nil =>
    have hstart := progress_start s now
    unfold frames
    rw [outputs_cons, outputs_nil, List.append_nil]
    exact hstart
  | append_singleton calls c ih =>
    have hrun := ih fun c' hc' => hcalls c' (List.mem_append_left _ hc')
    have hc := hcalls c (List.mem_append_right _ (List.mem_singleton_self c))
    have hnext := progress_call hc hrun
    unfold frames at hnext ⊢
    rw [← List.cons_append, outputs_concat, run_concat]
    exact hnext

/-- **No frame of a run is lost.** From any vehicle, started, and through any calls up to the next
start: the frames queued are the script's, in order, as many as the state says, and no more are in
the queue. -/
theorem frames_of_run (s : Ev) (now : Instant) (calls : List Call)
    (hcalls : ∀ c ∈ calls, ∀ t, c ≠ .start t) :
    ∃ mac id n, Reached (Lib.run call s (.start now :: calls)) n
      ∧ (Lib.run call s (.start now :: calls)).out.length ≤ n
      ∧ (frames s (.start now :: calls)).map said = scripted s.config mac id n :=
  (progress_run s now calls hcalls).sent

/-- The run of one vehicle with one station, up to the request for its key: sixteen frames, none
of them taken out of the queue. -/
theorem frames_of_run_chosen :
    ∃ mac id n,
      Reached (Lib.run call (new Sample.vehicle) (.start ⟨0⟩
        :: ([Sample.parmCnf 0x45] ++ Sample.burst ++ [Sample.attenInd 0x45 30, Sample.closing]))) n
      ∧ (Lib.run call (new Sample.vehicle) (.start ⟨0⟩ :: ([Sample.parmCnf 0x45] ++ Sample.burst
        ++ [Sample.attenInd 0x45 30, Sample.closing]))).out.length ≤ n
      ∧ (frames (new Sample.vehicle) (.start ⟨0⟩ :: ([Sample.parmCnf 0x45] ++ Sample.burst
        ++ [Sample.attenInd 0x45 30, Sample.closing]))).map said
          = scripted Sample.vehicle mac id n :=
  frames_of_run (new Sample.vehicle) ⟨0⟩
    ([Sample.parmCnf 0x45] ++ Sample.burst ++ [Sample.attenInd 0x45 30, Sample.closing])
    (by
      intro c hc t heq
      subst heq
      revert hc
      simp [Sample.parmCnf, Sample.burst, Sample.attenInd, Sample.closing])

/-! ## A vehicle started once

Before the start nothing is sent, and from then on the script. -/

/-- The call starts a run. -/
def Call.starts : Call → Bool
  | .start _ => true
  | _ => false

theorem Call.ne_start {c : Call} (h : ¬ c.starts) (now : Instant) : c ≠ .start now := by
  intro heq
  rw [heq] at h
  exact h rfl

theorem Call.not_starts {c : Call} (h : ∀ now, c ≠ .start now) : ¬ c.starts := by
  cases c with
  | start now => exact absurd rfl (h now)
  | frame | timeout | pollTransmit | pollEvent => exact Bool.false_ne_true

/-- A vehicle that waits to be started, or has failed, sends nothing, whatever reaches it. -/
theorem resting_call {s : Ev} {c : Call} (hc : ¬ c.starts)
    (hs : s.state = .idle ∨ s.state = .failed) :
    queued (taken call s c) = [] ∧ (s.call c).state = s.state := by
  have hne : ∀ now, c ≠ .start now := Call.ne_start hc
  have hother : ∀ {st : EvState}, s.state = st → st = .idle ∨ st = .failed := by
    rintro st rfl
    exact hs
  have heffect := effect_call s c
  generalize hcall : s.call c = s' at heffect
  have hquiet (hout : s'.out = s.out) : queued (taken call s c) = [] :=
    queued_of_append hne (by rw [hcall, hout, List.append_nil])
  cases heffect with
  | quiet => exact ⟨hquiet rfl, rfl⟩
  | waiting => exact ⟨hquiet rfl, rfl⟩
  | @started now => exact absurd rfl (hne now)
  | found => exact ⟨hquiet rfl, rfl⟩
  | tooFar => exact ⟨hquiet rfl, rfl⟩
  | reported => exact ⟨hquiet rfl, rfl⟩
  | keyed _ hkey => exact absurd (hother hkey) (by decide)
  | ended hidle =>
    -- a run that has failed does not fail again
    have hfailed : s.state = .failed := hs.resolve_left hidle
    rw [fail_of_failed (s := { s with deadline := none }) hfailed] at hquiet ⊢
    exact ⟨hquiet rfl, rfl⟩
  | begun hprobing => exact absurd (hother hprobing) (by decide)
  | sounded hsounding => exact absurd (hother hsounding) (by decide)
  | chosen hawaiting => exact absurd (hother hawaiting) (by decide)
  | lapsed => exact ⟨hquiet rfl, rfl⟩
  | polledTransmit =>
    have hq : queued (taken call s .pollTransmit) = [] :=
      List.drop_eq_nil_of_le (by simp [taken, hcall])
    exact ⟨hq, rfl⟩
  | polledEvent => exact ⟨hquiet rfl, rfl⟩

theorem idle_call {s : Ev} {c : Call} (hc : ¬ c.starts) (hs : s.state = .idle) :
    queued (taken call s c) = [] ∧ (s.call c).state = .idle := by
  obtain ⟨hq, hstate⟩ := resting_call hc (.inl hs)
  exact ⟨hq, hstate.trans hs⟩

theorem frames_of_idle {s : Ev} (hs : s.state = .idle) {calls : List Call}
    (hcalls : ∀ c ∈ calls, ¬ c.starts) : frames s calls = [] := by
  unfold frames
  exact outputs_eq_nil (D := fun s : Ev => s.state = .idle) (A := fun c => ¬ c.starts)
    (fun _ _ hidle hc => idle_call hc hidle) hs hcalls

/-- Whatever reaches a vehicle that is started once, all it sends is from the script of one
station. -/
theorem said_of_once (config : EvConfig) {calls : List Call}
    (hcalls : calls.countP Call.starts ≤ 1) :
    ∃ mac id, ∀ o ∈ frames (new config) calls, ∃ entry ∈ script config mac id,
      said o = (entry.1, some (config.mac, entry.2)) := by
  by_cases hstarts : ∃ now, Call.start now ∈ calls
  · obtain ⟨now, hmem⟩ := hstarts
    obtain ⟨before, rest, rfl⟩ := List.mem_iff_append.mp hmem
    -- the one start is this one
    have hcount : before.countP Call.starts = 0 ∧ rest.countP Call.starts = 0 := by
      rw [List.countP_append, List.countP_cons_of_pos (by rfl)] at hcalls
      omega
    have hbefore : ∀ c ∈ before, ¬ c.starts := List.countP_eq_zero.mp hcount.1
    have hrest : ∀ c ∈ rest, ∀ t, c ≠ .start t :=
      fun c hc => Call.ne_start (List.countP_eq_zero.mp hcount.2 c hc)
    have hconfig : (Lib.run call (new config) before).config = config := after_config config before
    obtain ⟨mac, id, n, -, -, hsent⟩ :=
      (progress_run (Lib.run call (new config) before) now rest hrest).sent
    rw [hconfig] at hsent
    refine ⟨mac, id, fun o ho => ?_⟩
    have hframes : frames (new config) (before ++ .start now :: rest)
        = frames (Lib.run call (new config) before) (.start now :: rest) := by
      have hnone : frames (new config) before = [] := frames_of_idle rfl hbefore
      unfold frames at hnone ⊢
      rw [outputs_append, hnone, List.nil_append]
    rw [hframes] at ho
    have hsaid : said o ∈ scripted config mac id n := hsent ▸ List.mem_map_of_mem ho
    obtain ⟨entry, hentry, heq⟩ := List.mem_map.mp hsaid
    exact ⟨entry, List.mem_of_mem_take hentry, heq.symm⟩
  · have hnone : ∀ c ∈ calls, ¬ c.starts := by
      intro c hc hstart
      cases c with
      | start now => exact hstarts ⟨now, hc⟩
      | frame => cases hstart
      | timeout => cases hstart
      | pollTransmit => cases hstart
      | pollEvent => cases hstart
    refine ⟨broadcast, config.id, fun o ho => ?_⟩
    rw [frames_of_idle rfl hnone] at ho
    cases ho

end Iso15118.Slac.Ev
