import Iso15118.Slac.Station.Runs
import Iso15118.Lib.Deletion

/-!
# Bystanders on the powerline

A matching station hears every frame on its segment, and nothing authenticates any of them. Once
a run is open, though, a frame that is not part of it changes nothing at all:

* **`Evse.Bystander`** — a frame delivered while a run is open that is not a message of that run;
* **`Evse.call_of_bystander`** — the station after it is the station before it;
* **`Evse.bystanders_left_out`** — deleting any of them from a history leaves everything else as
  it was.
-/

namespace Iso15118.Slac

open Iso15118.Lib Iso15118.Session

/-- The matching run a message says it belongs to. -/
def Message.runId : Message → RunId
  | .parmReq m => m.runId
  | .parmCnf m => m.runId
  | .startAtten m => m.runId
  | .sound m => m.runId
  | .attenInd m => m.runId
  | .attenRsp m => m.runId
  | .matchReq m => m.runId
  | .matchCnf m => m.runId

/-- A frame that is not a message of `run`. -/
inductive Foreign (run : Run) (raw : List UInt8) : Prop where
  | unparsed (h : acceptFrame raw = none)
  | undecoded (h : receive raw = none)
  | source {f : Frame} (h : acceptFrame raw = some f) (hsource : f.source ≠ run.pevMac)
  | runId {source : MacAddr} {m : Message} (h : receive raw = some (source, m))
      (hid : m.runId ≠ run.id)

/-- The source of what a frame says is the frame's. -/
theorem source_of_receive {raw : List UInt8} {source : MacAddr} {m : Message}
    (h : receive raw = some (source, m)) :
    ∃ f, acceptFrame raw = some f ∧ f.source = source := by
  unfold receive at h
  cases hf : acceptFrame raw with
  | none =>
    rw [hf] at h
    cases h
  | some f =>
    rw [hf] at h
    refine ⟨f, rfl, ?_⟩
    have hmap := h
    simp only [Option.bind_some, Option.map_eq_some_iff] at hmap
    obtain ⟨_, -, hpair⟩ := hmap
    exact congrArg Prod.fst hpair

/-- What a foreign frame says, if it says anything, does not come from the run's vehicle under the
run's id. -/
theorem Foreign.not_of_run {run : Run} {raw : List UInt8} (h : Foreign run raw) {source : MacAddr}
    {m : Message} (hr : receive raw = some (source, m)) :
    ¬ (m.runId = run.id ∧ run.pevMac = source) := by
  obtain ⟨f, hf, hsource⟩ := source_of_receive hr
  intro hof
  cases h with
  | unparsed h =>
    rw [h] at hf
    cases hf
  | undecoded h =>
    rw [h] at hr
    cases hr
  | source h hne =>
    rw [h] at hf
    cases hf
    exact hne (hsource.trans hof.2.symm)
  | runId h hne =>
    rw [h] at hr
    cases hr
    exact hne hof.1

namespace Evse

/-! ## A run is open

From the request that opened it until it fails there is a run, and every handler compares a frame
with it. -/

/-- A vehicle has opened a run, and the run has not failed. -/
def Engaged (s : Evse) : Prop :=
  s.state = .sounding ∨ s.state = .measured ∨ s.state = .matched

/-- A station that is engaged has a run. -/
def Holds (s : Evse) : Prop := s.Engaged → s.run.isSome

theorem holds_of_run {s : Evse} {run : Run} (h : s.run = some run) : s.Holds := by
  intro _
  rw [h]
  rfl

/-- Every call keeps it: a call that changes the run or the state of an engaged station has a run
to work on, or opens one. -/
theorem holds_call {s : Evse} (h : s.Holds) (c : Call) : (s.call c).Holds := by
  have heffect := effect_call s c
  generalize s.call c = s' at heffect
  cases heffect with
  -- a run is opened with its vehicle, and no later call takes it away but the reset
  | quiet => exact h
  | @opened now raw source req hr ha =>
    have hrun : (s.openRun now source req).run = some (newRun source req) := by simp [openRun]
    exact holds_of_run hrun
  | announced hr hb => exact holds_of_run rfl
  | sounded hr hb => exact holds_of_run rfl
  | @soundedLast now raw source ind run hr hb hl =>
    have hrun : (({ s with run := some (Run.sounded run ind) } : Evse).finishSounding now).run
        = some (Run.sounded run ind) := finishSounding_run _ now
    exact holds_of_run hrun
  | rejected hr hb hid hres =>
    have hrun := (run_of_bound hb).1
    rw [← fail_run s .rejected] at hrun
    exact holds_of_run hrun
  | refused hr hb hmac hid hs =>
    have hrun := (run_of_bound hb).1
    rw [← fail_run s .outOfSequence] at hrun
    exact holds_of_run hrun
  | @granted now raw source req run hr hb hmac hid hs =>
    have hgrant : (s.grant run req).run = s.run := by simp [grant]
    exact holds_of_run (hgrant.trans (run_of_bound hb).1)
  | @windowClosed now run hd hs hrun hsounds =>
    have hrun : (({ s with deadline := none } : Evse).finishSounding now).run = some run :=
      (finishSounding_run _ now).trans hrun
    exact holds_of_run hrun
  | timedOut hd hs =>
    -- the run is kept, and it was open before the deadline passed
    intro _
    rw [fail_run]
    exact h (hs.elim .inl fun hm => .inr (.inl hm))
  | lapsed hd => exact h
  | observed profile => exact h
  | reset =>
    intro hengaged
    rcases hengaged with hs | hs | hs <;> cases hs
  | polledTransmit => exact h
  | polledEvent => exact h

theorem holds_after (config : EvseConfig) (calls : List Call) : (after config calls).Holds := by
  have hnew : (new config).Holds := by
    intro hengaged
    rcases hengaged with hs | hs | hs <;> cases hs
  exact run_of_invariant (I := Holds) (A := fun _ => True) (fun s c hs _ => holds_call hs c) hnew
    fun _ _ => trivial

/-! ## The frame that changes nothing

Handler by handler: a frame of another source or under another id does not get past the first
check. -/

/-- The call delivers a frame to a station that is engaged, and the frame is not a message of the
station's run. -/
def Bystander (s : Evse) (c : Call) : Prop :=
  ∃ now raw, c = .frame now raw ∧ s.Engaged ∧ ∀ run, s.run = some run → Foreign run raw

theorem bound_of_foreign {s : Evse} {run : Run} (hrun : s.run = some run) {raw : List UInt8}
    (h : Foreign run raw) {source : MacAddr} {m : Message} (hr : receive raw = some (source, m)) :
    s.bound m.runId source = none := by
  unfold bound
  rw [hrun, Option.filter_some, if_neg]
  rw [decide_eq_true_iff]
  intro hof
  exact h.not_of_run hr ⟨hof.1.symm, hof.2⟩

/-- Nobody opens a run here while another one is open. -/
theorem admits_of_foreign {s : Evse} (hs : s.Engaged) {run : Run} (hrun : s.run = some run)
    {raw : List UInt8} (h : Foreign run raw) {source : MacAddr} {req : SlacParmReq}
    (hr : receive raw = some (source, .parmReq req)) : s.admits source req = false := by
  have hnot : ¬ (req.runId = run.id ∧ run.pevMac = source) := h.not_of_run hr
  have hother : run.pevMac ≠ source ∨ run.id ≠ req.runId := by
    by_cases hsource : run.pevMac = source
    · exact .inr fun hid => hnot ⟨hid.symm, hsource⟩
    · exact .inl hsource
  unfold admits
  rw [hrun]
  rcases hs with hs | hs | hs <;> simp [hs, hother]

/-- **A bystander's frame changes nothing.** One case per handler: the one that opens a run is
closed while a run is open, and the others bind to the vehicle and the id of the run. -/
theorem call_of_bystander {s : Evse} (hs : s.Holds) {c : Call} (h : s.Bystander c) :
    s.call c = s := by
  obtain ⟨now, raw, rfl, hengaged, hforeign⟩ := h
  obtain ⟨run, hrun⟩ := Option.isSome_iff_exists.mp (hs hengaged)
  have hraw := hforeign run hrun
  show s.handleFrame now raw = s
  unfold handleFrame
  split
  · next source m hr =>
    unfold onParmReq
    rw [admits_of_foreign hengaged hrun hraw hr]
    rfl
  · next source m hr =>
    have hbound : s.bound m.runId source = none := bound_of_foreign hrun hraw hr
    unfold onStartAtten
    rw [hbound]
  · next source m hr =>
    have hbound : s.bound m.runId source = none := bound_of_foreign hrun hraw hr
    unfold onSound
    rw [hbound]
  · next source m hr =>
    have hbound : s.bound m.runId source = none := bound_of_foreign hrun hraw hr
    unfold onAttenRsp
    rw [hbound]
    rfl
  · next source m hr =>
    have hbound : s.bound m.runId source = none := bound_of_foreign hrun hraw hr
    unfold onMatchReq
    rw [hbound]
  · rfl

/-! ## Runs with and without bystanders

The special case of `Lib.Deletion` in which a marked call changes nothing at all. -/

/-- The frames the application got to write. -/
def transmitted (t : Transition Evse Call) : List Outgoing :=
  match t.call with
  | .pollTransmit => t.before.pollTransmit.1.toList
  | _ => []

/-- The events the application got to see. -/
def delivered (t : Transition Evse Call) : List EvseEvent :=
  match t.call with
  | .pollEvent => t.before.pollEvent.1.toList
  | _ => []

/-- The marked calls of a history are bystanders' frames, each in the state it is delivered in. -/
def Marks (config : EvseConfig) (calls : List (Call × Bool)) : Prop :=
  MarkedMeet call Bystander (new config) calls

/-- The state a marked call is delivered in is one a station reaches. -/
theorem Marks.meet {config : EvseConfig} {calls : List (Call × Bool)} (h : Marks config calls) :
    MarkedMeet call (fun s c => s.Holds ∧ s.Bystander c) (new config) calls := by
  intro before c rest heq hc
  exact ⟨holds_after config (made before), h before c rest heq hc⟩

theorem Marks.of_append {config : EvseConfig} {before rest : List (Call × Bool)}
    (h : Marks config (before ++ rest)) : Marks config before := Along.of_append h

theorem still_of_meets (s : Evse) (c : Call) (h : s.Holds ∧ s.Bystander c) : s.call c = s :=
  call_of_bystander h.1 h.2

/-- A call that changes nothing appends nothing, and a frame is neither written nor shown. -/
theorem silent_of_meets (s : Evse) (c : Call) (h : s.Holds ∧ s.Bystander c) :
    queued (taken call s c) = [] ∧ emitted (taken call s c) = []
      ∧ transmitted (taken call s c) = [] ∧ delivered (taken call s c) = [] := by
  have hstill := still_of_meets s c h
  obtain ⟨now, raw, rfl, -⟩ := h.2
  refine ⟨queued_of_append ?_, emitted_of_append ?_, rfl, rfl⟩
  · simp [taken, hstill]
  · simp [taken, hstill]

/-- **Bystanders change nothing.** In every history of a station, delete any of the frames that
were delivered while a run was open and were not messages of it. At every point of the history the
station is in the same state, its queues and its deadline included; the history itself is what it
was, without the deleted calls; and so are the frames queued and written and the events raised
and polled. -/
theorem bystanders_left_out (config : EvseConfig) (calls : List (Call × Bool))
    (h : Marks config calls) :
    (∀ before rest, calls = before ++ rest →
        after config (made before) = after config (kept before))
      ∧ history config (kept calls) = keptOf calls (history config (made calls))
      ∧ (history config (made calls)).flatMap queued
          = (history config (kept calls)).flatMap queued
      ∧ (history config (made calls)).flatMap emitted
          = (history config (kept calls)).flatMap emitted
      ∧ (history config (made calls)).flatMap transmitted
          = (history config (kept calls)).flatMap transmitted
      ∧ (history config (made calls)).flatMap delivered
          = (history config (kept calls)).flatMap delivered := by
  have hmeet := h.meet
  refine ⟨fun before rest heq => ?_, hmeet.trace_kept still_of_meets, ?_, ?_, ?_, ?_⟩
  · have hbefore : Marks config before := (heq ▸ h).of_append
    exact hbefore.meet.run_kept still_of_meets
  · exact hmeet.shown_kept still_of_meets fun s c hc => (silent_of_meets s c hc).1
  · exact hmeet.shown_kept still_of_meets fun s c hc => (silent_of_meets s c hc).2.1
  · exact hmeet.shown_kept still_of_meets fun s c hc => (silent_of_meets s c hc).2.2.1
  · exact hmeet.shown_kept still_of_meets fun s c hc => (silent_of_meets s c hc).2.2.2

/-- Noise, and a request for another run under the vehicle's own address, while a run is open. -/
def overheard : List (Call × Bool) :=
  [(Sample.parmReq, false), (.frame ⟨5⟩ [0x01, 0x02], true),
    (.frame ⟨6⟩ (wire broadcast Sample.pevMac .slacParmReq
      (SlacParmReq.mk (Bytes.replicate 8 0x08)).encode), true),
    (.pollTransmit, false)]

theorem marks_overheard : Marks Sample.station overheard := by
  have hrun : (after Sample.station [Sample.parmReq]).state = .sounding
      ∧ (after Sample.station [Sample.parmReq]).run
          = some (newRun Sample.pevMac ⟨Sample.runId⟩) := by decide +kernel
  have hnoise : after Sample.station [Sample.parmReq, .frame ⟨5⟩ [0x01, 0x02]]
      = after Sample.station [Sample.parmReq] := by decide +kernel
  have hother : receive (wire broadcast Sample.pevMac .slacParmReq
      (SlacParmReq.mk (Bytes.replicate 8 0x08)).encode)
        = some (Sample.pevMac, .parmReq ⟨Bytes.replicate 8 0x08⟩) := by decide +kernel
  have hfirst : (after Sample.station [Sample.parmReq]).Bystander (.frame ⟨5⟩ [0x01, 0x02]) :=
    ⟨_, _, rfl, .inl hrun.1, fun _ _ => .unparsed (by decide +kernel)⟩
  have hsecond : (after Sample.station [Sample.parmReq, .frame ⟨5⟩ [0x01, 0x02]]).Bystander
      (.frame ⟨6⟩ (wire broadcast Sample.pevMac .slacParmReq
        (SlacParmReq.mk (Bytes.replicate 8 0x08)).encode)) := by
    rw [hnoise]
    refine ⟨_, _, rfl, .inl hrun.1, fun run h => ?_⟩
    rw [hrun.2] at h
    cases h
    exact .runId hother (by decide)
  unfold Marks MarkedMeet overheard
  rw [along_cons, along_cons, along_cons, along_cons]
  refine ⟨fun h => (by cases h), fun _ => hfirst, fun _ => hsecond, fun h => (by cases h), ?_⟩
  exact along_nil

theorem bystanders_left_out_overheard :
    Marks Sample.station overheard
      ∧ after Sample.station (made overheard) = after Sample.station (kept overheard) :=
  ⟨marks_overheard,
    (bystanders_left_out Sample.station overheard marks_overheard).1 overheard []
      (List.append_nil _).symm⟩

end Evse

end Iso15118.Slac
