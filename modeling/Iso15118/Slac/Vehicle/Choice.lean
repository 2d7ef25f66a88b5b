import Iso15118.Slac.Vehicle.Burst
import Iso15118.Slac.Vehicle.Window
import Mathlib.Data.List.MinMax

/-!
# Picking the quietest station

The attenuation a station measured says how far away it is, and the station at the other end of the
cable is the nearest. The vehicle keeps the best report so far, and reports arrive in every state of
a run; what it picks is the quietest of all reports since the run was started, and of several the
first.

* **`Ev.reportOf`**, **`Ev.reports`** — the reports that count, of a call and of a stretch of the
  run;
* **`Ev.best_call`** — what a call does to the best report;
* **`Ev.picks_quietest`** — the request for the key names the first of the quietest reports since
  the start, and without one the run fails and asks nobody.
-/

namespace Iso15118.Slac.Ev

open Iso15118.Lib Iso15118.Session

/-! ## The reports that count

What a call delivers, read off the frame and the state it finds: a report that concerns the
burst, has groups and is within the limit. -/

/-- A report as the vehicle keeps it: the address it is from, the station it names, the mean. -/
abbrev Report : Type := MacAddr × StationId × UInt8

/-- What reports are compared by. -/
def Report.mean (r : Report) : Nat := r.2.2.toNat

/-- The report in a message: one about this vehicle's burst, with a group, and within the limit. -/
def heard (s : Ev) : Option (MacAddr × Message) → Option Report
  | some (source, .attenInd ind) =>
      if s.concerns ind then
        ind.profile.meanAttenuation.bind fun mean =>
          if s.tooFar mean then none else some (source, ind.respId, mean)
      else none
  | _ => none

/-- The report a call delivers, if it delivers one. -/
def reportOf (s : Ev) : Call → Option Report
  | .frame _ raw => s.heard (receive raw)
  | _ => none

/-- The reports of a stretch of the run, in the order they arrived. -/
def reports (log : List (Transition Ev Call)) : List Report :=
  log.filterMap fun t => t.before.reportOf t.call

/-- The call closes the window for reports. -/
def ClosesWindow (t : Transition Ev Call) : Prop :=
  ∃ now d, t.call = .timeout now ∧ t.before.state = .awaitingMeasurements
    ∧ t.before.deadline = some d ∧ d ≤ now

/-- A request for the key names the station of the first of the quietest reports since the start of
the run. -/
def NamesQuietest (log : List (Transition Ev Call)) (t : Transition Ev Call) : Prop :=
  ∀ o ∈ queued t, ∀ source req, receive o.frame = some (source, .matchReq req) →
    ∃ e later mac id mean, Since Starts log e later
      ∧ (reports later).argmin Report.mean = some (mac, id, mean)
      ∧ req.evseMac = mac ∧ req.evseId = id ∧ o.destination = mac

/-- A window that closes without a report ends the run, and nobody is asked for a key. -/
def FailsUnreported (log : List (Transition Ev Call)) (t : Transition Ev Call) : Prop :=
  ClosesWindow t → ∀ e later, Since Starts log e later → reports later = [] →
    t.after.state = .failed ∧ emitted t = [.failed .tooFarAway] ∧ queued t = []

/-- A run that has failed stays so and sends nothing until the next is started. -/
def StaysFailed (t : Transition Ev Call) : Prop :=
  t.before.state = .failed → ¬ Starts t → t.after.state = .failed ∧ queued t = []

/-! ## What a call does to the best report

The vehicle keeps the better of two, where the earlier one wins a draw. Only a report changes
what it keeps. -/

/-- The better of the best report so far and a new one. -/
def better (best : Option Report) (r : Report) : Option Report :=
  if best.all (fun b => r.mean < b.mean) then some r else best

/-- Keeping the better one on the way is picking the first of the quietest in the end. -/
theorem argmin_concat_eq (rs : List Report) (r : Report) :
    (rs ++ [r]).argmin Report.mean = better (rs.argmin Report.mean) r := by
  rw [List.argmin_concat]
  unfold better
  cases rs.argmin Report.mean with
  | none => rfl
  | some b => simp

theorem improves_eq (s : Ev) (r : Report) :
    s.improves r.2.2 = s.best.all (fun b => r.mean < Report.mean b) := by
  unfold improves Report.mean
  cases s.best with
  | none => rfl
  | some b => simp [UInt8.lt_iff_toNat_lt]

theorem best_onParmCnf (s : Ev) (source : MacAddr) (cnf : SlacParmCnf) :
    (s.onParmCnf source cnf).best = s.best := by
  unfold onParmCnf
  split
  · rw [note_eq]
  · rfl

theorem best_onMatchCnf (s : Ev) (source : MacAddr) (cnf : SlacMatchCnf) :
    (s.onMatchCnf source cnf).best = s.best := by
  unfold onMatchCnf
  split
  · rfl
  · split
    · rfl
    · split
      · rfl
      · split
        · rfl
        · rfl

/-- The best report after a report: the better one, of those that count. -/
theorem best_onMeasurement {s : Ev} {source : MacAddr} {ind : AttenCharInd}
    (hc : s.concerns ind = true) (now : Instant) :
    (s.onMeasurement now source ind).best
      = (s.heard (some (source, .attenInd ind))).elim s.best (better s.best) := by
  unfold heard
  dsimp only
  rw [if_pos hc]
  cases hm : ind.profile.meanAttenuation with
  | none =>
    rw [onMeasurement_of_none hm]
    rfl
  | some mean =>
    rw [Option.bind_some]
    cases hf : s.tooFar mean with
    | true =>
      rw [onMeasurement_of_tooFar hm hf]
      rfl
    | false =>
      rw [onMeasurement_of_some hm hf]
      dsimp only
      rw [show s.improves mean = _ from s.improves_eq (source, ind.respId, mean)]
      rfl

/-- The best report after a frame. -/
theorem best_handleFrame (s : Ev) (now : Instant) (raw : List UInt8) :
    (s.handleFrame now raw).best
      = (s.reportOf (.frame now raw)).elim s.best (better s.best) := by
  show _ = (s.heard (receive raw)).elim s.best (better s.best)
  unfold handleFrame
  generalize receive raw = said
  rcases said with _ | ⟨source, m⟩
  · rfl
  · cases m with
    | parmCnf cnf => exact s.best_onParmCnf source cnf
    | matchCnf cnf => exact s.best_onMatchCnf source cnf
    | attenInd ind =>
      dsimp only
      by_cases hc : s.concerns ind = true
      · rw [if_pos hc]
        exact best_onMeasurement hc now
      · rw [if_neg hc]
        unfold heard
        dsimp only
        rw [if_neg hc]
        rfl
    | parmReq m | startAtten m | sound m | attenRsp m | matchReq m => rfl

theorem best_fail (s : Ev) (reason : Reason) : (s.fail reason).best = s.best := by
  unfold fail
  split <;> rfl

theorem best_sendNextSound (s : Ev) (now : Instant) : (s.sendNextSound now).best = s.best := by
  rcases s.sendNextSound_cases now with ⟨-, o, -, h⟩ | ⟨-, -, o, -, h⟩ | ⟨-, -, h⟩
  · rw [h]
  · rw [h]
  · rw [h]

/-- The clock brings no report. -/
theorem best_handleTimeout (s : Ev) (now : Instant) : (s.handleTimeout now).best = s.best := by
  have heffect := s.effect_handleTimeout now
  generalize s.handleTimeout now = s' at heffect
  cases heffect with
  | waiting => rfl
  | ended hs => exact best_fail _ _
  | begun hs => exact best_sendNextSound _ now
  | sounded hs => exact best_sendNextSound _ now
  | chosen hs hb =>
    obtain ⟨o, o', -, -, hchoose⟩ := choose_eq (s := { s with deadline := none }) hb now
    rw [hchoose]
  | lapsed hs => rfl

/-- The best report after a call of the run. -/
theorem best_call {s : Ev} {c : Call} (hc : ∀ now, c ≠ .start now) :
    (s.call c).best = (s.reportOf c).elim s.best (better s.best) := by
  cases c with
  | start now => exact absurd rfl (hc now)
  | frame now raw => exact s.best_handleFrame now raw
  | timeout now => exact best_handleTimeout s now
  | pollTransmit => rfl
  | pollEvent => rfl

/-! ## The invariant

What is kept is the first of the quietest of all reports since the start. -/

/-- The best report is the first of the quietest since the start, and a vehicle that is not idle
has been started. -/
structure Collected (log : List (Transition Ev Call)) (s : Ev) : Prop where
  started : s.state ≠ .idle → ∃ e later, Since Starts log e later
  best : ∀ e later, Since Starts log e later → s.best = (reports later).argmin Report.mean

theorem reports_concat (log : List (Transition Ev Call)) (s : Ev) (c : Call) :
    reports (log ++ [taken call s c]) = reports log ++ (s.reportOf c).toList := by
  unfold reports
  rw [List.filterMap_append]
  show _ ++ List.filterMap _ [taken call s c] = _
  cases h : s.reportOf c with
  | none => simp [taken, h]
  | some r => simp [taken, h]

/-- **One call.** It starts a run afresh, or adds its report to those that were there. -/
theorem collected_call {log : List (Transition Ev Call)} {s : Ev} (h : Collected log s)
    (c : Call) : Collected (log ++ [taken call s c]) (s.call c) := by
  by_cases hstarts : Starts (taken call s c)
  · obtain ⟨now, hc⟩ := hstarts
    obtain rfl : c = .start now := hc
    obtain ⟨o, -, hstart⟩ := s.start_eq now
    refine ⟨fun _ => ⟨_, [], since_concat_self ⟨now, rfl⟩⟩, fun e later hsince => ?_⟩
    obtain ⟨-, rfl⟩ := since_concat_of_mark ⟨now, rfl⟩ hsince
    rw [show s.call (.start now) = _ from hstart]
    rfl
  · have hc : ∀ now, c ≠ .start now := fun now heq => hstarts ⟨now, heq⟩
    constructor
    · intro hne
      have hne' : s.state ≠ .idle := fun hs => hne (idle_call (Call.not_starts hc) hs).2
      obtain ⟨e, later, hsince⟩ := h.started hne'
      exact ⟨e, _, hsince.concat hstarts⟩
    · intro e later hsince
      obtain ⟨later', rfl, hsince'⟩ := since_concat_of_not_mark hstarts hsince
      rw [best_call hc, reports_concat, h.best e later' hsince']
      cases s.reportOf c with
      | none => rw [Option.toList_none, List.append_nil, Option.elim_none]
      | some r =>
        rw [Option.toList_some, argmin_concat_eq]
        rfl

theorem collected_after (config : EvConfig) (calls : List Call) :
    Collected (history config calls) (after config calls) := by
  unfold history after
  refine invariant_trace (I := Collected) ?_ (fun log s c h => collected_call h c) calls
  refine ⟨fun hne => absurd rfl hne, ?_⟩
  rintro e later ⟨earlier, heq, -⟩
  cases List.append_eq_nil_iff.mp heq.symm |>.2

/-! ## The request

A request for a key is queued by the choice only, and names what is kept at that moment. -/

theorem exists_pushed (out : List Outgoing) (o : Outgoing) :
    ∃ os, pushed out o = out ++ os ∧ ∀ x ∈ os, x = o := by
  unfold pushed
  split
  · exact ⟨[o], rfl, fun x hx => List.mem_singleton.mp hx⟩
  · exact ⟨[], (List.append_nil _).symm, fun x hx => by cases hx⟩

theorem out_fail (s : Ev) (reason : Reason) : (s.fail reason).out = s.out := by
  unfold fail
  split <;> rfl

/-- A frame that carries another type says no request for the key. -/
theorem not_matchReq_of_carries {o : Outgoing} {destination source source' : MacAddr}
    {mmtype : Mmtype} {payload : List UInt8} {req : SlacMatchReq}
    (h : o.Carries destination source mmtype payload) (htype : mmtype ≠ .slacMatchReq) :
    receive o.frame ≠ some (source', .matchReq req) :=
  fun hr => htype (h.mmtype_of_receive hr).symm

/-- Only the choice asks for a key, and it asks the best station for it. -/
theorem chosen_of_request {s : Ev} {c : Call} {o : Outgoing} {source : MacAddr}
    {req : SlacMatchReq} (ho : o ∈ queued (taken call s c))
    (hr : receive o.frame = some (source, .matchReq req)) :
    s.state = .awaitingMeasurements
      ∧ ∃ mac id mean, s.best = some (mac, id, mean) ∧ req.evseMac = mac ∧ req.evseId = id
        ∧ o.destination = mac := by
  have heffect := effect_call s c
  generalize hcall : s.call c = s' at heffect
  -- a call that leaves the queue alone, or puts another frame in it
  have hnone (hc : ∀ now, c ≠ .start now) (hout : s'.out = s.out) : False := by
    rw [queued_of_append hc (by rw [hcall, hout, List.append_nil])] at ho
    cases ho
  -- the frames of the burst are announcements and sounding packets
  have hsend {s₁ : Ev} {now : Instant} (hc : ∀ now, c ≠ .start now)
      (hs' : s' = s₁.sendNextSound now) (hout : s₁.out = s.out) : False := by
    rcases s₁.sendNextSound_cases now with
      ⟨-, x, hx, h⟩ | ⟨-, -, x, hx, h⟩ | ⟨-, -, h⟩
    · obtain ⟨os, hpushed, hos⟩ := exists_pushed s₁.out x
      rw [queued_of_append hc (by rw [hcall, hs', h, hpushed, hout])] at ho
      rw [hos o ho] at hr
      exact not_matchReq_of_carries hx (by simp) hr
    · obtain ⟨os, hpushed, hos⟩ := exists_pushed s₁.out x
      rw [queued_of_append hc (by rw [hcall, hs', h, hpushed, hout])] at ho
      rw [hos o ho] at hr
      exact not_matchReq_of_carries hx (by simp) hr
    · exact hnone hc (by rw [hs', h, hout])
  cases heffect with
  | quiet => exact (hnone (by simp) rfl).elim
  | waiting => exact (hnone (by simp) rfl).elim
  -- a start sends the request for a run
  | @started now =>
    obtain ⟨x, hx, hstart⟩ := s.start_eq now
    have hqueued : queued (taken call s (.start now)) = [x] := by
      show (s.call (.start now)).out = [x]
      rw [hcall, hstart]
    rw [hqueued] at ho
    rw [List.mem_singleton.mp ho] at hr
    exact (not_matchReq_of_carries hx (by simp) hr).elim
  | found => exact (hnone (by simp) rfl).elim
  | tooFar => exact (hnone (by simp) rfl).elim
  | reported => exact (hnone (by simp) rfl).elim
  | keyed => exact (hnone (by simp) rfl).elim
  | ended hs => exact (hnone (by simp) (out_fail _ _)).elim
  | begun hs => exact (hsend (by simp) rfl rfl).elim
  | sounded hs => exact (hsend (by simp) rfl rfl).elim
  -- the choice sends two frames, of which the second is the request for the key
  | @chosen now mac id mean hs hb =>
    obtain ⟨x, x', hx, hx', hchoose⟩ := choose_eq (s := { s with deadline := none }) hb now
    obtain ⟨os, hpushed, hos⟩ := exists_pushed s.out x
    obtain ⟨os', hpushed', hos'⟩ := exists_pushed (pushed s.out x) x'
    have hout : (s.call (.timeout now)).out = s.out ++ (os ++ os') := by
      rw [hcall, hchoose, ← List.append_assoc, ← hpushed, ← hpushed']
    rw [queued_of_append (by simp) hout] at ho
    rcases List.mem_append.mp ho with ho | ho
    · -- the acknowledgement
      rw [hos o ho] at hr
      exact (not_matchReq_of_carries hx (by simp) hr).elim
    · obtain rfl := hos' o ho
      have hsaid := hx'.receive_eq (m := .matchReq (s.matchReq mac id)) fun _ hm => by cases hm
      rw [hr] at hsaid
      cases hsaid
      exact ⟨hs, mac, id, mean, hb, rfl, rfl, hx'.destination_eq⟩
  | lapsed => exact (hnone (by simp) rfl).elim
  | polledTransmit =>
    have hqueued : queued (taken call s .pollTransmit) = [] :=
      List.drop_eq_nil_of_le (by simp [taken, hcall])
    rw [hqueued] at ho
    cases ho
  | polledEvent => exact (hnone (by simp) rfl).elim

theorem namesQuietest_call {log : List (Transition Ev Call)} {s : Ev} (h : Collected log s)
    (c : Call) : NamesQuietest log (taken call s c) := by
  intro o ho source req hr
  obtain ⟨hs, mac, id, mean, hbest, hmac, hid, hdest⟩ := chosen_of_request ho hr
  obtain ⟨e, later, hsince⟩ := h.started (by simp [hs])
  exact ⟨e, later, mac, id, mean, hsince, (h.best e later hsince).symm.trans hbest, hmac, hid,
    hdest⟩

theorem failsUnreported_call {log : List (Transition Ev Call)} {s : Ev} (h : Collected log s)
    (c : Call) : FailsUnreported log (taken call s c) := by
  rintro ⟨now, d, hc, hs, hd, hdue⟩ e later hsince hnone
  obtain rfl : c = .timeout now := hc
  have hs : s.state = .awaitingMeasurements := hs
  have hbest : s.best = none := by
    rw [h.best e later hsince, hnone]
    rfl
  have hcall : s.call (.timeout now)
      = { s with
          state := .failed
          deadline := none
          events := s.events ++ [.failed .tooFarAway] } := by
    show s.handleTimeout now = _
    rw [handleTimeout_of_waiting hs hd hdue,
      choose_of_none (s := { s with deadline := none }) hbest,
      fail_of_not_failed (s := { s with deadline := none }) (by simp [hs])]
  refine ⟨by simp [taken, hcall], emitted_of_append (by rw [hcall]), ?_⟩
  exact queued_of_append (by simp) (by rw [hcall, List.append_nil])

/-- **The vehicle picks the quietest station.** In every sequence of calls: a request for the key
names the sender of the first of the quietest reports since the start of the run, of those that
decode, are about this vehicle's burst, have a group and are within the limit; a window that closes
without such a report fails the run, and a failed run asks nobody. -/
theorem picks_quietest (config : EvConfig) (calls : List Call) :
    Along (fun log t => NamesQuietest log t ∧ FailsUnreported log t ∧ StaysFailed t)
      (history config calls) := by
  unfold history
  rw [along_trace]
  intro xs c ys heq
  have h := collected_after config xs
  refine ⟨namesQuietest_call h c, failsUnreported_call h c, fun hs hstarts => ?_⟩
  have hnot : ∀ now, c ≠ .start now := fun now hc => hstarts ⟨now, hc⟩
  obtain ⟨hq, hstate⟩ := resting_call (Call.not_starts hnot) (.inr hs)
  exact ⟨hstate.trans hs, hq⟩

/-- Of two stations as quiet as each other, the first to report is asked. -/
example : (after Sample.vehicle ([.start ⟨0⟩, Sample.parmCnf 0x45] ++ Sample.burst
    ++ [Sample.attenInd 0x45 30, Sample.attenInd 0x66 30, Sample.closing])).out.getLast?.map
      Outgoing.destination = some (Sample.evseMac 0x45) := by
  decide +kernel

end Iso15118.Slac.Ev
