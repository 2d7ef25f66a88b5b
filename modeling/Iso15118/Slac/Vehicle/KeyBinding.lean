import Iso15118.Slac.Vehicle.Effect

/-!
# Taking the key from the chosen station

When the window for reports closes the vehicle picks the least attenuated station, names it in
its `CM_SLAC_MATCH.REQ`, and waits for that station's key. The confirmation is checked against
`best` — but reports keep updating `best` after the request has gone out, so a report of a lower
attenuation that arrives while the vehicle waits moves the check to another station.

* **`Ev.overrides`** — such a report: about this vehicle's burst, within its limit, quieter than
  the chosen station and from another one;
* **`Ev.Stage`**, **`Ev.staged_call`** — what the run since the last start has queued, stage by
  stage; with room in the queue for every frame of it;
* **`Ev.matches_requested_of_undisturbed`** — in a run without such reports the station a match
  reports is the one the vehicle's request named.
-/

namespace Iso15118.Slac.Ev

open Iso15118.Lib Iso15118.Session

/-! ## Requests and matches along a run

The claim is about the stretch since the last start; the condition is about single calls in it. -/

/-- The call starts a run. -/
def Starts (t : Transition Ev Call) : Prop := ∃ now, t.call = .start now

/-- The frame is a `CM_SLAC_MATCH.REQ`. -/
def IsRequest (o : Outgoing) : Prop := ∃ f, parseFrame o.frame = .ok f ∧ f.mmtype = .slacMatchReq

/-- The frame is a `CM_SLAC_MATCH.REQ` that names this station. -/
def Names (o : Outgoing) (mac : MacAddr) (id : StationId) : Prop :=
  ∃ f req, parseFrame o.frame = .ok f ∧ f.mmtype = .slacMatchReq
    ∧ SlacMatchReq.decode f.payload = .ok req ∧ req.evseMac = mac ∧ req.evseId = id

/-- The stretch has a request in it, and every request in it names this station. -/
def Requested (log : List (Transition Ev Call)) (mac : MacAddr) (id : StationId) : Prop :=
  (∃ t ∈ log, ∃ o ∈ queued t, Names o mac id)
    ∧ ∀ t ∈ log, ∀ o ∈ queued t, IsRequest o → Names o mac id

/-- A match reports the station named in the request of the run in progress. -/
def MatchesRequested (config : EvConfig) (calls : List Call) : Prop :=
  Along (fun log t => ∀ mac id nmk nid, .matched mac id nmk nid ∈ emitted t →
    ∃ e later, Since Starts log e later ∧ Requested later mac id) (history config calls)

/-- A report delivered while the vehicle waits for the key: about this vehicle's burst, within
its limit, quieter than the chosen station's and from another station. -/
def overrides (t : Transition Ev Call) : Bool :=
  match t.call with
  | .frame _ raw =>
      match receive raw with
      | some (source, .attenInd ind) =>
          t.before.state = .awaitingKey && t.before.concerns ind
            && ind.profile.meanAttenuation.any
              (fun mean => !t.before.tooFar mean && t.before.improves mean)
            && t.before.best.all (fun (mac, id, _) => (source, ind.respId) ≠ (mac, id))
      | _ => false
  | _ => false

/-- No such report is delivered in the run. -/
def Undisturbed (config : EvConfig) (calls : List Call) : Prop :=
  Along (fun _ t => overrides t = false) (history config calls)

/-! ## The stages of a run

Before the choice nothing is asked for, and after it one station has been. Room is kept for the
frames that are still to come. -/

/-- Nothing queued in this stretch is a request. -/
def Silent (log : List (Transition Ev Call)) : Prop :=
  ∀ t ∈ log, ∀ o ∈ queued t, ¬ IsRequest o

/-- What the calls since the start of the run have queued. Up to the choice there is no request,
and room for the two frames of the choice behind the rest of the burst; from the choice on the
request names the best station. -/
def Stage (s : Ev) (later : List (Transition Ev Call)) : Prop :=
  match s.state with
  | .idle | .matched | .failed => True
  | .probing => s.out.length ≤ 1 ∧ Silent later
  | .sounding =>
      s.out.length + s.remainingStarts.toNat + s.remainingSounds.toNat ≤ 14 ∧ Silent later
  | .awaitingMeasurements => s.out.length ≤ 14 ∧ Silent later
  | .awaitingKey => ∃ mac id mean, s.best = some (mac, id, mean) ∧ Requested later mac id

/-- The invariant: a vehicle that is not idle has been started, and is in its stage. -/
def Staged (log : List (Transition Ev Call)) (s : Ev) : Prop :=
  s.state ≠ .idle → ∃ e later, Since Starts log e later ∧ Stage s later

section Queued

variable {s : Ev} {c : Call} {later : List (Transition Ev Call)} {mac : MacAddr} {id : StationId}

theorem queued_of_append {os : List Outgoing} (hc : ∀ now, c ≠ .start now)
    (h : (s.call c).out = s.out ++ os) : queued (taken call s c) = os := by
  unfold queued
  split
  · next now hcall => exact absurd hcall (hc now)
  · show (s.call c).out.drop s.out.length = os
    rw [h, List.drop_left]

theorem Silent.concat (h : Silent later) (hq : ∀ o ∈ queued (taken call s c), ¬ IsRequest o) :
    Silent (later ++ [taken call s c]) := by
  intro t ht o ho
  rcases List.mem_append.mp ht with ht | ht
  · exact h t ht o ho
  · rw [List.mem_singleton.mp ht] at ho
    exact hq o ho

theorem Requested.concat (h : Requested later mac id)
    (hq : ∀ o ∈ queued (taken call s c), IsRequest o → Names o mac id) :
    Requested (later ++ [taken call s c]) mac id := by
  obtain ⟨⟨t, ht, hreq⟩, hall⟩ := h
  refine ⟨⟨t, List.mem_append_left _ ht, hreq⟩, fun t ht o ho => ?_⟩
  rcases List.mem_append.mp ht with ht | ht
  · exact hall t ht o ho
  · rw [List.mem_singleton.mp ht] at ho
    exact hq o ho

theorem not_isRequest_of_carries {o : Outgoing} {destination source : MacAddr} {mmtype : Mmtype}
    {payload : List UInt8} (h : o.Carries destination source mmtype payload)
    (htype : mmtype ≠ .slacMatchReq) : ¬ IsRequest o := by
  rintro ⟨f, hparse, hf⟩
  rw [h.mmtype_eq hparse] at hf
  exact htype hf

theorem names_of_carries {o : Outgoing} {destination source : MacAddr} {req : SlacMatchReq}
    (h : o.Carries destination source .slacMatchReq req.fields.flatten) :
    Names o req.evseMac req.evseId := by
  obtain ⟨padding, hparse⟩ := h.parses
  exact ⟨_, req, hparse, rfl, req.decode_fields padding, rfl, rfl⟩

end Queued

theorem pushed_of_lt {out : List Outgoing} (h : out.length < maxPendingFrames) (o : Outgoing) :
    pushed out o = out ++ [o] := if_pos h

/-! ## Calls that stay in their stage

Most calls queue nothing and leave the station picked as it is. -/

/-- A call that queues nothing and leaves the state, the burst and the chosen station alone stays
in its stage. -/
theorem Stage.keep {s s' : Ev} {c : Call} {later : List (Transition Ev Call)} (h : Stage s later)
    (hq : queued (taken call s c) = []) (hstate : s'.state = s.state)
    (hout : s'.out.length ≤ s.out.length) (hstarts : s'.remainingStarts = s.remainingStarts)
    (hsounds : s'.remainingSounds = s.remainingSounds)
    (hbest : s.state = .awaitingKey → ∀ mac id mean, s.best = some (mac, id, mean) →
      ∃ mean', s'.best = some (mac, id, mean')) :
    Stage s' (later ++ [taken call s c]) := by
  have hsilent : Silent later → Silent (later ++ [taken call s c]) :=
    fun hl => hl.concat (by simp [hq])
  unfold Stage at h ⊢
  rw [hstate, hstarts, hsounds]
  cases hs : s.state with
  | idle => trivial
  | matched => trivial
  | failed => trivial
  | probing =>
    rw [hs] at h
    exact ⟨Nat.le_trans hout h.1, hsilent h.2⟩
  | sounding =>
    rw [hs] at h
    obtain ⟨hroom, hl⟩ := h
    exact ⟨by omega, hsilent hl⟩
  | awaitingMeasurements =>
    rw [hs] at h
    exact ⟨Nat.le_trans hout h.1, hsilent h.2⟩
  | awaitingKey =>
    rw [hs] at h
    obtain ⟨mac, id, mean, hsome, hreq⟩ := h
    obtain ⟨mean', hsome'⟩ := hbest hs mac id mean hsome
    exact ⟨mac, id, mean', hsome', hreq.concat (by simp [hq])⟩

/-- A run that is over has nothing left to say. -/
theorem stage_of_over {s : Ev} {later : List (Transition Ev Call)}
    (h : s.state = .matched ∨ s.state = .failed) : Stage s later := by
  unfold Stage
  rcases h with h | h <;> rw [h] <;> trivial

theorem fail_state (s : Ev) (reason : Reason) : (s.fail reason).state = .failed := by
  unfold fail
  split
  · next h => exact h
  · rfl

/-! ## Calls that move the run on

The burst, packet by packet, and the choice at its end. -/

theorem toNat_pred {n : UInt8} (h : n > 0) : (n - 1).toNat = n.toNat - 1 ∧ 0 < n.toNat := by
  have hpos : 0 < n.toNat := UInt8.lt_iff_toNat_lt.mp h
  refine ⟨?_, hpos⟩
  rw [UInt8.toNat_sub_of_le n 1 (UInt8.le_iff_toNat_le.mpr hpos)]
  rfl

/-- Sending the next message of the burst keeps room for the rest of it. -/
theorem stage_sendNextSound {s s₁ : Ev} {c : Call} {now : Instant}
    {later : List (Transition Ev Call)} (hc : ∀ now, c ≠ .start now)
    (hcall : s.call c = s₁.sendNextSound now) (hs₁ : s₁.state = .sounding)
    (hout : s₁.out = s.out)
    (hroom : s₁.out.length + s₁.remainingStarts.toNat + s₁.remainingSounds.toNat ≤ 14)
    (hsilent : Silent later) : Stage (s.call c) (later ++ [taken call s c]) := by
  have hlt : s₁.remainingStarts.toNat + s₁.remainingSounds.toNat > 0 →
      s₁.out.length < maxPendingFrames := by
    unfold maxPendingFrames
    omega
  -- neither an announcement nor a sounding packet is a request
  rcases s₁.sendNextSound_cases now with
    ⟨hstarts, o, hcarries, hsend⟩ | ⟨-, hsounds, o, hcarries, hsend⟩ | ⟨-, -, hsend⟩
  · obtain ⟨hpred, hpos⟩ := toNat_pred hstarts
    rw [pushed_of_lt (hlt (by omega)) o] at hsend
    have hq : queued (taken call s c) = [o] := queued_of_append hc (by rw [hcall, hsend, hout])
    have hnot := not_isRequest_of_carries hcarries (by simp)
    rw [hcall, hsend]
    unfold Stage
    simp only [hs₁]
    refine ⟨?_, hsilent.concat (by simpa [hq] using hnot)⟩
    rw [List.length_append, hpred, List.length_singleton]
    omega
  · obtain ⟨hpred, hpos⟩ := toNat_pred hsounds
    rw [pushed_of_lt (hlt (by omega)) o] at hsend
    have hq : queued (taken call s c) = [o] := queued_of_append hc (by rw [hcall, hsend, hout])
    have hnot := not_isRequest_of_carries hcarries (by simp)
    rw [hcall, hsend]
    unfold Stage
    simp only [hs₁]
    refine ⟨?_, hsilent.concat (by simpa [hq] using hnot)⟩
    rw [List.length_append, hpred, List.length_singleton]
    omega
  · have hq : queued (taken call s c) = [] :=
      queued_of_append hc (by rw [hcall, hsend, hout, List.append_nil])
    have hfew : s₁.out.length ≤ 14 := by omega
    rw [hcall, hsend]
    exact ⟨hfew, hsilent.concat (by simp [hq])⟩

/-- The choice queues the request, and the request names the best station. -/
theorem stage_choose {s s₁ : Ev} {c : Call} {now : Instant} {later : List (Transition Ev Call)}
    {mac : MacAddr} {id : StationId} {mean : UInt8} (hc : ∀ now, c ≠ .start now)
    (hcall : s.call c = s₁.choose now) (hbest : s₁.best = some (mac, id, mean))
    (hout : s₁.out = s.out) (hroom : s₁.out.length ≤ 14) (hsilent : Silent later) :
    Stage (s.call c) (later ++ [taken call s c]) := by
  obtain ⟨o, o', hcarries, hcarries', hchoose⟩ := choose_eq hbest now
  have hpush : pushed (pushed s₁.out o) o' = s₁.out ++ [o, o'] := by
    rw [pushed_of_lt (by unfold maxPendingFrames; omega) o, pushed_of_lt ?_ o', List.append_assoc]
    · rfl
    · rw [List.length_append, List.length_singleton]
      unfold maxPendingFrames
      omega
  have hq : queued (taken call s c) = [o, o'] :=
    queued_of_append hc (by rw [hcall, hchoose, hpush, hout])
  have hnames : Names o' mac id := names_of_carries hcarries'
  have hnot : ¬ IsRequest o := not_isRequest_of_carries hcarries (by simp)
  have hrequested : Requested (later ++ [taken call s c]) mac id := by
    refine ⟨⟨_, List.mem_append_right _ (List.mem_singleton_self _), o', by simp [hq], hnames⟩, ?_⟩
    intro t ht x hx hreq
    rcases List.mem_append.mp ht with ht | ht
    · exact absurd hreq (hsilent t ht x hx)
    · rw [List.mem_singleton.mp ht, hq] at hx
      rcases List.mem_cons.mp hx with rfl | hx
      · exact absurd hreq hnot
      · rw [List.mem_singleton.mp hx]
        exact hnames
  rw [hcall, hchoose]
  unfold Stage
  exact ⟨mac, id, mean, hbest, hrequested⟩

/-! ## Every call keeps the invariant

By cases on what the call can do, where a report that overrides the choice is ruled out. -/

theorem Staged.concat {log : List (Transition Ev Call)} {s : Ev} {c : Call} (h : Staged log s)
    (hc : ∀ now, c ≠ .start now) (hne : s.state ≠ .idle)
    (hstage : ∀ later, Stage s later → Stage (s.call c) (later ++ [taken call s c])) :
    Staged (log ++ [taken call s c]) (s.call c) := by
  intro _
  obtain ⟨e, later, hsince, hs⟩ := h hne
  refine ⟨e, later ++ [taken call s c], hsince.concat ?_, hstage later hs⟩
  rintro ⟨now, hstart⟩
  exact hc now hstart

/-- A call that appends no frame and keeps the state and the chosen station keeps the
invariant. -/
theorem Staged.keep {log : List (Transition Ev Call)} {s s' : Ev} {c : Call} (h : Staged log s)
    (hc : ∀ now, c ≠ .start now) (hcall : s.call c = s') (hstate : s'.state = s.state)
    (hout : s'.out = s.out) (hstarts : s'.remainingStarts = s.remainingStarts)
    (hsounds : s'.remainingSounds = s.remainingSounds)
    (hbest : s.state = .awaitingKey → ∀ mac id mean, s.best = some (mac, id, mean) →
      ∃ mean', s'.best = some (mac, id, mean')) :
    Staged (log ++ [taken call s c]) (s.call c) := by
  intro hne
  have hne' : s.state ≠ .idle := by rwa [hcall, hstate] at hne
  have hq : queued (taken call s c) = [] :=
    queued_of_append hc (by rw [hcall, hout, List.append_nil])
  refine h.concat hc hne' (fun later hs => ?_) hne
  rw [hcall]
  exact hs.keep hq hstate (Nat.le_of_eq (by rw [hout])) hstarts hsounds hbest

/-- **One call.** A call that does not override the choice keeps the run in its stage. -/
theorem staged_call {log : List (Transition Ev Call)} {s : Ev} {c : Call} (h : Staged log s)
    (hcond : overrides (taken call s c) = false) : Staged (log ++ [taken call s c]) (s.call c) := by
  have heffect := effect_call s c
  generalize hcall : s.call c = s' at heffect
  rw [← hcall]
  cases heffect with
  | quiet => exact h.keep (by simp) hcall rfl rfl rfl rfl fun _ _ _ mean hb => ⟨mean, hb⟩
  | waiting => exact h.keep (by simp) hcall rfl rfl rfl rfl fun _ _ _ mean hb => ⟨mean, hb⟩
  -- a start begins another run, with nothing queued but its first frame
  | @started now =>
    intro _
    obtain ⟨o, -, hstart⟩ := s.start_eq now
    refine ⟨_, [], since_concat_self ⟨now, rfl⟩, ?_⟩
    rw [hcall, hstart]
    exact ⟨Nat.le_refl 1, fun t ht => by cases ht⟩
  | found => exact h.keep (by simp) hcall rfl rfl rfl rfl fun _ _ _ mean hb => ⟨mean, hb⟩
  | tooFar => exact h.keep (by simp) hcall rfl rfl rfl rfl fun _ _ _ mean hb => ⟨mean, hb⟩
  | @reported now raw source ind mean deadline hr hconcerns hm hf =>
    refine h.keep (by simp) hcall rfl rfl rfl rfl fun hs mac id best hb => ?_
    by_cases himp : s.improves mean = true
    · -- a quieter report while waiting is from the chosen station, or it overrides the choice
      by_cases hsame : (source, ind.respId) = (mac, id)
      · cases hsame
        exact ⟨mean, if_pos himp⟩
      · have hover : overrides (taken call s (.frame now raw)) = true := by
          simp only [Prod.mk.injEq] at hsame
          simp [overrides, taken, hr, hs, hconcerns, hm, hf, himp, hb, not_and_or.mp hsame]
        rw [hcond] at hover
        cases hover
    · exact ⟨best, by rw [← hb]; exact if_neg himp⟩
  -- a key, and a failure, end the run
  | keyed hr hs hb hsource =>
    refine h.concat (by simp) (by simp [hs]) fun later _ => ?_
    rw [hcall]
    exact stage_of_over (.inl rfl)
  | ended hs =>
    refine h.concat (by simp) hs fun later _ => ?_
    rw [hcall]
    exact stage_of_over (.inr (fail_state _ _))
  -- the burst: room is kept for the messages that are still to come, and the two of the choice
  | begun hs =>
    refine h.concat (by simp) (by simp [hs]) fun later hstage => ?_
    unfold Stage at hstage
    rw [hs] at hstage
    obtain ⟨hout, hsilent⟩ := hstage
    refine stage_sendNextSound (by simp) hcall rfl rfl ?_ hsilent
    show s.out.length + 3 + 10 ≤ 14
    omega
  | sounded hs =>
    refine h.concat (by simp) (by simp [hs]) fun later hstage => ?_
    unfold Stage at hstage
    rw [hs] at hstage
    obtain ⟨hroom, hsilent⟩ := hstage
    exact stage_sendNextSound (by simp) hcall hs rfl hroom hsilent
  -- the choice queues the request, for the station that is the best
  | chosen hs hb =>
    refine h.concat (by simp) (by simp [hs]) fun later hstage => ?_
    unfold Stage at hstage
    rw [hs] at hstage
    obtain ⟨hroom, hsilent⟩ := hstage
    exact stage_choose (by simp) hcall hb rfl hroom hsilent
  | lapsed hs => exact h.keep (by simp) hcall rfl rfl rfl rfl fun _ _ _ mean hb => ⟨mean, hb⟩
  -- what leaves the queue makes more room
  | polledTransmit =>
    intro hne
    have hne' : s.state ≠ .idle := by rwa [hcall] at hne
    have hq : queued (taken call s .pollTransmit) = [] :=
      List.drop_eq_nil_of_le (by simp [taken, hcall])
    refine h.concat (by simp) hne' (fun later hstage => ?_) hne
    rw [hcall]
    exact hstage.keep hq rfl (by simp) rfl rfl fun _ _ _ mean hb => ⟨mean, hb⟩
  | polledEvent => exact h.keep (by simp) hcall rfl rfl rfl rfl fun _ _ _ mean hb => ⟨mean, hb⟩

/-! ## Only a key makes a match

A match needs a confirmation from the station that is the best at that moment; by the invariant
it is the one that was asked. -/

theorem sendNextSound_events (s : Ev) (now : Instant) :
    (s.sendNextSound now).events = s.events := by
  rcases s.sendNextSound_cases now with ⟨-, o, -, h⟩ | ⟨-, -, o, -, h⟩ | ⟨-, -, h⟩
  · rw [h]
  · rw [h]
  · rw [h]

theorem emitted_of_append {s : Ev} {c : Call} {es : List EvEvent}
    (h : (s.call c).events = s.events ++ es) : emitted (taken call s c) = es := by
  unfold emitted taken
  simp only
  rw [h, List.drop_left]

/-- The call delivers the key a vehicle is waiting for: from its best station, and addressed to the
vehicle. -/
structure Keyed (s : Ev) (c : Call) (cnf : SlacMatchCnf) : Prop where
  delivered : ∃ now raw source, c = .frame now raw ∧ receive raw = some (source, .matchCnf cnf)
  waiting : s.state = .awaitingKey
  best : ∃ mean, s.best = some (cnf.evseMac, cnf.evseId, mean)
  addressed : cnf.pevMac = s.config.mac ∧ cnf.pevId = s.config.id

/-- A confirmation addressed to another vehicle changes nothing. -/
theorem onMatchCnf_of_other {s : Ev} {source : MacAddr} {cnf : SlacMatchCnf}
    (h : cnf.pevMac ≠ s.config.mac ∨ cnf.pevId ≠ s.config.id) : s.onMatchCnf source cnf = s := by
  unfold onMatchCnf
  rw [if_pos h]
  split
  · rfl
  · split
    · rfl
    · split <;> rfl

/-- A match is reported when the key is delivered, and by no other call. -/
theorem keyed_of_matched {s : Ev} {c : Call} {mac : MacAddr} {id : StationId} {nmk : Nmk}
    {nid : Nid} (h : .matched mac id nmk nid ∈ emitted (taken call s c)) :
    ∃ cnf, Keyed s c cnf ∧ cnf.evseMac = mac ∧ cnf.evseId = id ∧ cnf.nmk = nmk
      ∧ cnf.nid = nid := by
  -- a call that leaves the events alone, or notes an informational one, reports no match
  have hnone (hevents : (s.call c).events = s.events) : False := by
    rw [emitted_of_append (hevents.trans (List.append_nil _).symm)] at h
    cases h
  have hnote (e : EvEvent) (hevents : (s.call c).events = s.noted e)
      (hne : ∀ mac id nmk nid, e ≠ .matched mac id nmk nid) : False := by
    obtain ⟨es, hnoted, hes⟩ := s.exists_noted e
    rw [emitted_of_append (hevents.trans hnoted)] at h
    exact hne _ _ _ _ (hes _ h).symm
  have heffect := effect_call s c
  generalize hcall : s.call c = s' at heffect
  rw [hcall] at hnone hnote
  cases heffect with
  | quiet => exact (hnone rfl).elim
  | waiting => exact (hnone rfl).elim
  | @started now =>
    obtain ⟨o, -, hstart⟩ := s.start_eq now
    exact (hnone (by rw [hstart])).elim
  | found => exact (hnote _ rfl (by simp)).elim
  | tooFar => exact (hnote _ rfl (by simp)).elim
  | reported => exact (hnote _ rfl (by simp)).elim
  | @keyed now raw source cnf mean hr hs hb hsource =>
    rw [emitted_of_append (by rw [hcall])] at h
    cases List.mem_singleton.mp h
    have haddressed : ¬ (cnf.pevMac ≠ s.config.mac ∨ cnf.pevId ≠ s.config.id) := by
      intro hother
      have hstill : s.call (.frame now raw) = s := by
        show s.handleFrame now raw = s
        unfold handleFrame
        rw [hr]
        exact onMatchCnf_of_other hother
      -- the vehicle has left the state in which it waits for the key
      rw [hstill] at hcall
      have hstate := congrArg Ev.state hcall
      rw [hs] at hstate
      cases hstate
    obtain ⟨hpevMac, hpevId⟩ := not_or.mp haddressed
    refine ⟨cnf, ?_, rfl, rfl, rfl, rfl⟩
    exact {
      delivered := ⟨now, raw, source, rfl, hr⟩
      waiting := hs
      best := ⟨mean, hb⟩
      addressed := ⟨not_not.mp hpevMac, not_not.mp hpevId⟩ }
  | @ended now reason hs =>
    by_cases hfailed : s.state = .failed
    · exact (hnone (by rw [fail_of_failed (s := { s with deadline := none }) hfailed])).elim
    · rw [fail_of_not_failed (s := { s with deadline := none }) hfailed] at hcall
      rw [emitted_of_append (by rw [hcall])] at h
      cases List.mem_singleton.mp h
  | begun hs => exact (hnone (by unfold beginSounding; rw [sendNextSound_events])).elim
  | sounded hs => exact (hnone (by rw [sendNextSound_events])).elim
  | @chosen now mac id mean hs hb =>
    obtain ⟨o, o', -, -, hchoose⟩ := choose_eq (s := { s with deadline := none }) hb now
    exact (hnone (by rw [hchoose])).elim
  | lapsed => exact (hnone rfl).elim
  | polledTransmit => exact (hnone rfl).elim
  | polledEvent =>
    have hdropped : emitted (taken call s .pollEvent) = [] :=
      List.drop_eq_nil_of_le (by simp [taken, hcall])
    rw [hdropped] at h
    cases h

/-- **The key of the chosen station.** In a run in which no report overrides the choice, every
match reports exactly the station named in the `CM_SLAC_MATCH.REQ` queued since the run was
started. -/
theorem matches_requested_of_undisturbed (config : EvConfig) (calls : List Call)
    (h : Undisturbed config calls) : MatchesRequested config calls := by
  refine along_of_invariant (show Staged [] (new config) from ?_) (fun _ _ _ => staged_call) ?_ h
  · intro hne
    exact absurd rfl hne
  · intro log s c hstaged _ mac id nmk nid hmem
    obtain ⟨cnf, hkeyed, rfl, rfl, -, -⟩ := keyed_of_matched hmem
    obtain ⟨mean, hbest⟩ := hkeyed.best
    have hs := hkeyed.waiting
    obtain ⟨e, later, hsince, hstage⟩ := hstaged (by simp [hs])
    unfold Stage at hstage
    rw [hs] at hstage
    obtain ⟨mac', id', mean', hbest', hreq⟩ := hstage
    rw [hbest] at hbest'
    cases hbest'
    exact ⟨e, later, hsince, hreq⟩

/-- A complete run of one vehicle and one station ends in a match with that station. -/
theorem matches_requested_of_undisturbed_alone :
    (after Sample.vehicle (Sample.chosen 0x45 ++ [Sample.matchCnf 0x45])).state = .matched
      ∧ MatchesRequested Sample.vehicle (Sample.chosen 0x45 ++ [Sample.matchCnf 0x45]) :=
  ⟨by decide +kernel, matches_requested_of_undisturbed _ _ (by unfold Undisturbed; decide +kernel)⟩

/-- A second station reports a lower attenuation once the first has been asked for its key, and
its confirmation is the one that makes the match. -/
theorem not_matchesRequested_lateReport :
    ¬ MatchesRequested Sample.vehicle
      (Sample.chosen 0x45 ++ [Sample.attenInd 0x66 10] ++ [Sample.matchCnf 0x66]) := by
  intro h
  unfold MatchesRequested history at h
  rw [trace_concat] at h
  have hlast := ((along_concat _ _).mp h).2
  have hmatched : .matched (Sample.evseMac 0x66) (Sample.evseId 0x66) (Bytes.replicate 16 0x4B)
        (Bytes.replicate 7 0x4E)
      ∈ emitted (taken call (Lib.run call (new Sample.vehicle)
        (Sample.chosen 0x45 ++ [Sample.attenInd 0x66 10])) (Sample.matchCnf 0x66)) := by
    decide +kernel
  -- every request of the run names the first station
  have hfirst : ∀ t ∈ trace call (new Sample.vehicle)
        (Sample.chosen 0x45 ++ [Sample.attenInd 0x66 10]), ∀ o ∈ queued t,
      (acceptFrame o.frame).all (fun f => f.mmtype ≠ .slacMatchReq
        || (decoded (SlacMatchReq.decode f.payload)).all
          (fun req => req.evseMac = Sample.evseMac 0x45)) = true := by
    decide +kernel
  obtain ⟨e, later, ⟨earlier, hlog, -⟩, ⟨t, ht, o, ho, hnames⟩, -⟩ := hlast _ _ _ _ hmatched
  obtain ⟨f, req, hparse, htype, hdecode, hmac, -⟩ := hnames
  have hone := hfirst t (hlog ▸ List.mem_append_right _ (List.mem_cons_of_mem _ ht)) o ho
  have hsame : Sample.evseMac 0x66 = Sample.evseMac 0x45 := by
    simpa [acceptFrame, hparse, decoded, hdecode, htype, hmac, Except.toOption] using hone
  exact absurd hsame (by decide)

end Iso15118.Slac.Ev
