import Iso15118.Slac.Station.Effect

/-!
# One run, one outcome

A station that has handed over its key is taken until its application resets it, and a run has
exactly one outcome: a match or a failure. The engine guards the first against a stray
`CM_SLAC_PARM.REQ`, but two other handlers end in `fail` without looking at the state: a
repeated `CM_SLAC_MATCH.REQ` and a rejecting `CM_ATTEN_CHAR.RSP` of the matched vehicle itself
both turn a match into a failure.

* **`Evse.unsettles`** — the frames that do this, by what the station reads of them;
* **`Evse.credit_step`** — the balance of a call that opens no run: a run in progress is worth
  one outcome, and spending it ends the run;
* **`Evse.match_final_iff`** — a match is final, and no run has two outcomes, exactly in the runs
  in which no such frame reaches a matched station.
-/

namespace Iso15118.Slac.Evse

open Iso15118.Lib Iso15118.Session

/-! ## Outcomes

A match and a failure are the outcomes of a run. A stretch is what lies between two requests that
open one. -/

def isOutcome : EvseEvent → Bool
  | .matched .. | .failed _ => true
  | .runStarted _ | .measured .. => false

/-- The matches and failures a stretch of a run reports. -/
def outcomes (log : List (Transition Evse Call)) : List EvseEvent :=
  log.flatMap fun t => (emitted t).filter isOutcome

/-- The call is a frame of the vehicle that opened the run, addressed to this station, that asks
for the key or rejects the report. -/
def unsettles (s : Evse) : Call → Bool
  | .frame _ raw =>
      match receive raw with
      | some (source, .matchReq req) =>
          (s.bound req.runId source).isSome ∧ req.evseMac = s.config.mac ∧ req.evseId = s.config.id
      | some (source, .attenRsp rsp) =>
          (s.bound rsp.runId source).isSome ∧ rsp.respId = s.config.id ∧ rsp.result ≠ 0
      | _ => false
  | _ => false

/-- Once matched, the station stays matched and reports no failure, until it is reset. -/
def MatchFinal (config : EvseConfig) (calls : List Call) : Prop :=
  Along (fun _ t => t.before.state = .matched → t.call ≠ .reset →
    t.after.state = .matched ∧ ∀ reason, .failed reason ∉ emitted t) (history config calls)

/-- In any stretch of the run in which no run is opened, at most one outcome is reported. -/
def OneOutcome (config : EvseConfig) (calls : List Call) : Prop :=
  ∀ xs ys zs, calls = xs ++ ys ++ zs →
    (∀ t ∈ trace call (after config xs) ys, opening t = none) →
    (outcomes (trace call (after config xs) ys)).length ≤ 1

/-- No frame that unsettles a match reaches a matched station. -/
def Undisturbed (config : EvseConfig) (calls : List Call) : Prop :=
  Along (fun _ t => t.before.state = .matched → t.before.unsettles t.call = false)
    (history config calls)

/-! ## One call of a matched station

Two handlers fail a run without asking whether it has matched. Every other call leaves a matched
station as it is. -/

theorem call_of_unsettles {s : Evse} {c : Call} (hs : s.state = .matched)
    (h : s.unsettles c = true) : ∃ reason, s.call c = s.fail reason := by
  unfold unsettles at h
  split at h
  case h_2 => cases h
  case h_1 now raw =>
    show ∃ reason, s.handleFrame now raw = _
    split at h
    · next source req hr =>
      obtain ⟨hb, hmac, hid⟩ := by simpa using h
      obtain ⟨run, hrun⟩ := Option.isSome_iff_exists.mp hb
      refine ⟨.outOfSequence, ?_⟩
      simp [handleFrame, hr, onMatchReq, hrun, hmac, hid, hs]
    · next source rsp hr =>
      obtain ⟨hb, hid, hres⟩ := by simpa using h
      obtain ⟨run, hrun⟩ := Option.isSome_iff_exists.mp hb
      refine ⟨.rejected, ?_⟩
      simp [handleFrame, hr, onAttenRsp, hrun, hid, hres]
    · cases h

/-- What a call that does not unsettle a matched station leaves of it. -/
theorem matched_call {s : Evse} {c : Call} (hs : s.state = .matched) (hreset : c ≠ .reset)
    (h : s.unsettles c = false) :
    (s.call c).state = .matched ∧ emitted (taken call s c) = [] := by
  have hnil : ∀ {s' : Evse}, s.call c = s' → s'.events = s.events →
      emitted (taken call s c) = [] := by
    intro s' hcall hevents
    refine emitted_of_append ?_
    show (s.call c).events = s.events ++ []
    rw [hcall, hevents, List.append_nil]
  have heffect := effect_call s c
  generalize hcall : s.call c = s' at heffect
  cases heffect with
  | quiet => exact ⟨hs, hnil hcall rfl⟩
  | opened hr ha => simp [admits, hs] at ha
  | announced hr hb => exact ⟨hs, hnil hcall rfl⟩
  | sounded hr hb => exact ⟨hs, hnil hcall rfl⟩
  | soundedLast hr hb hl =>
    rw [finishSounding_of_ne (by simp [hs])] at hcall ⊢
    exact ⟨hs, hnil hcall rfl⟩
  -- what would unsettle the match is excluded
  | rejected hr hb hid hres => simp [unsettles, hr, hb, hid, hres] at h
  | refused hr hb hmac hid _ => simp [unsettles, hr, hb, hid, hmac] at h
  | granted hr hb hmac hid hm => rw [hs] at hm; cases hm
  -- the deadlines of a run in progress are over
  | windowClosed hd hsound _ _ => rw [hs] at hsound; cases hsound
  | timedOut hd hst => rw [hs] at hst; rcases hst with hst | hst <;> cases hst
  | lapsed hd => exact ⟨hs, hnil hcall rfl⟩
  | observed profile => exact ⟨hs, hnil hcall rfl⟩
  | reset => exact absurd rfl hreset
  | polledTransmit => exact ⟨hs, hnil hcall rfl⟩
  | polledEvent =>
    refine ⟨hs, ?_⟩
    show (s.call .pollEvent).events.drop s.events.length = []
    rw [hcall]
    exact List.drop_eq_nil_of_le (by simp)

/-- A matched station stays matched, and reports no failure, exactly at the calls that do not
unsettle it. -/
theorem matched_call_iff {s : Evse} {c : Call} (hs : s.state = .matched) (hreset : c ≠ .reset) :
    ((s.call c).state = .matched ∧ ∀ reason, .failed reason ∉ emitted (taken call s c))
      ↔ s.unsettles c = false := by
  constructor
  · rintro ⟨hstate, -⟩
    by_contra h
    obtain ⟨reason, hcall⟩ := call_of_unsettles hs (by simpa using h)
    rw [hcall, fail_of_not_failed (by simp [hs])] at hstate
    cases hstate
  · intro h
    obtain ⟨hstate, hemitted⟩ := matched_call hs hreset h
    refine ⟨hstate, fun reason hmem => ?_⟩
    rw [hemitted] at hmem
    cases hmem

/-! ## The balance of a run

A run in progress is owed one outcome. A call reports no more than was owed before it, and leaves
the rest. -/

/-- What is still owed: a run in progress has one outcome to come. -/
def credit : EvseState → Nat
  | .sounding | .measured => 1
  | .idle | .matched | .failed => 0

/-- An idle station holds no run, so no frame is bound to it. -/
def IdleFree (s : Evse) : Prop := s.state = .idle → s.run = none

/-- A call that appended no outcome and left the credit alone, or lower. -/
theorem balance_of_append {s : Evse} {c : Call} (es : List EvseEvent) (n : Nat)
    (hevents : (s.call c).events = s.events ++ es) (hn : (es.filter isOutcome).length = n)
    (hcredit : n + credit (s.call c).state ≤ credit s.state) :
    (outcomes [taken call s c]).length + credit (s.call c).state ≤ credit s.state := by
  have hemitted : emitted (taken call s c) = es := emitted_of_append hevents
  unfold outcomes
  rw [List.flatMap_singleton, hemitted, hn]
  exact hcredit

theorem balance_of_keep {s s' : Evse} {c : Call} (hcall : s.call c = s')
    (hevents : s'.events = s.events) (hstate : s'.state = s.state) :
    (outcomes [taken call s c]).length + credit (s.call c).state ≤ credit s.state := by
  refine balance_of_append [] 0 ?_ rfl ?_
  · rw [hcall, hevents, List.append_nil]
  · rw [hcall, hstate]
    omega

/-- Failing a run in progress spends its credit. -/
theorem balance_of_fail {s s₁ : Evse} {c : Call} {reason : Reason}
    (hcall : s.call c = s₁.fail reason) (hevents : s₁.events = s.events)
    (hstate : s₁.state = s.state) (hidle : s.state ≠ .idle) (hmatched : s.state ≠ .matched) :
    (outcomes [taken call s c]).length + credit (s.call c).state ≤ credit s.state := by
  by_cases hf : s.state = .failed
  · rw [fail_of_failed (by rw [hstate, hf])] at hcall
    exact balance_of_keep hcall hevents hstate
  · rw [fail_of_not_failed (by rw [hstate]; exact hf)] at hcall
    refine balance_of_append [.failed reason] 1 (by rw [hcall, hevents]) rfl ?_
    rw [hcall]
    cases hs : s.state with
    | sounding => exact Nat.le_refl 1
    | measured => exact Nat.le_refl 1
    | idle => exact absurd hs hidle
    | matched => exact absurd hs hmatched
    | failed => exact absurd hs hf

/-- Closing the sounding burst spends the credit, or keeps it for the key. -/
theorem balance_of_finishSounding {s s₁ : Evse} {c : Call} {now : Instant} {run : Run}
    (hcall : s.call c = s₁.finishSounding now) (hevents : s₁.events = s.events)
    (hstate : s₁.state = s.state) (hrun : s₁.run = some run) :
    (outcomes [taken call s c]).length + credit (s.call c).state ≤ credit s.state := by
  by_cases hs : s.state = .sounding
  · have hs₁ : s₁.state = .sounding := by rw [hstate, hs]
    -- whatever the reason, a failure is the one outcome that is owed
    have hfail : ∀ reason, s.call c = s₁.fail reason →
        (outcomes [taken call s c]).length + credit (s.call c).state ≤ credit s.state :=
      fun reason h => balance_of_fail h hevents hstate (by simp [hs]) (by simp [hs])
    rcases finishSounding_cases now hrun hs₁ with ⟨-, h⟩ | ⟨profile, -, -, h⟩ | ⟨profile, -, -, h⟩
    · exact hfail _ (hcall.trans h)
    · exact hfail _ (hcall.trans h)
    · rw [h] at hcall
      obtain ⟨es, hnoted, hes⟩ := s₁.exists_noted (.measured (meanOf profile) run.sounds)
      have hnone : es.filter isOutcome = [] := by
        refine List.filter_eq_nil_iff.mpr fun e he => ?_
        rw [hes e he]
        exact Bool.false_ne_true
      rcases Nat.lt_or_ge aagLen profile.numGroups.toNat with hgroups | hgroups
      · -- the report cannot be encoded: the run fails instead
        rw [report_eq_of_lt hgroups] at hcall
        refine balance_of_append (es ++ [.failed .encodingFailed]) 1 ?_ ?_ ?_
        · rw [hcall, hnoted, hevents, List.append_assoc]
        · rw [List.filter_append, hnone]
          rfl
        · rw [hcall, hs]
          exact Nat.le_refl 1
      -- a report is no outcome, and one is still owed
      · obtain ⟨o, -, hreport⟩ := report_eq hgroups now run (s := s₁)
        rw [hreport] at hcall
        refine balance_of_append es 0 ?_ ?_ ?_
        · rw [hcall, hnoted, hevents]
        · rw [hnone]
          rfl
        · rw [hcall, hs]
          exact Nat.le_refl 1
  · rw [finishSounding_of_ne (by rw [hstate]; exact hs)] at hcall
    exact balance_of_keep hcall hevents hstate

/-- A bound frame finds a station that is not idle. -/
theorem IdleFree.ne_idle {s : Evse} (h : s.IdleFree) {runId : RunId} {source : MacAddr} {run : Run}
    (hb : s.bound runId source = some run) : s.state ≠ .idle := by
  intro hidle
  have hrun := (run_of_bound hb).1
  rw [h hidle] at hrun
  cases hrun

/-- **The balance of a call.** A call that opens no run and does not unsettle a match reports at
most what was owed, and leaves the rest owed. -/
theorem credit_step {s : Evse} {c : Call} (hidle : s.IdleFree)
    (hmatch : s.state = .matched → s.unsettles c = false)
    (hopen : opening (taken call s c) = none) :
    (outcomes [taken call s c]).length + credit (s.call c).state ≤ credit s.state := by
  have heffect := effect_call s c
  generalize hcall : s.call c = s' at heffect
  rw [← hcall]
  cases heffect with
  | quiet => exact balance_of_keep hcall rfl rfl
  | opened hr ha =>
    simp [opening, taken, hr, ha] at hopen
  -- what is counted on the way is no outcome
  | announced hr hb => exact balance_of_keep hcall rfl rfl
  | sounded hr hb => exact balance_of_keep hcall rfl rfl
  | soundedLast hr hb hl => exact balance_of_finishSounding hcall rfl rfl rfl
  | rejected hr hb hid hres =>
    -- a match that is on is not unsettled, so the failure takes what was owed
    refine balance_of_fail hcall rfl rfl (hidle.ne_idle hb) fun hm => ?_
    have := hmatch hm
    simp [unsettles, hr, hb, hid, hres] at this
  | refused hr hb hmac hid _ =>
    refine balance_of_fail hcall rfl rfl (hidle.ne_idle hb) fun hm => ?_
    have := hmatch hm
    simp [unsettles, hr, hb, hid, hmac] at this
  -- a match is one outcome, and there is credit for one
  | @granted now raw source req run hr hb hmac hid hm =>
    obtain ⟨o, -, hgrant⟩ := s.grant_eq run req
    rw [hgrant] at hcall
    refine balance_of_append [.matched req.pevId req.pevMac s.config.nmk] 1 ?_ rfl ?_
    · rw [hcall]
    · rw [hcall, hm]
      exact Nat.le_refl 1
  | windowClosed hd hs hrun _ => exact balance_of_finishSounding hcall rfl rfl hrun
  | timedOut hd hs =>
    refine balance_of_fail hcall rfl rfl ?_ ?_ <;> rcases hs with hs | hs <;> simp [hs]
  | lapsed hd => exact balance_of_keep hcall rfl rfl
  | observed profile => exact balance_of_keep hcall rfl rfl
  | reset =>
    refine balance_of_append [] 0 (by rw [hcall, List.append_nil]; rfl) rfl ?_
    rw [hcall]
    exact Nat.zero_le _
  | polledTransmit => exact balance_of_keep hcall rfl rfl
  | polledEvent =>
    have hemitted : emitted (taken call s .pollEvent) = [] :=
      List.drop_eq_nil_of_le (by simp [taken, call, pollEvent])
    unfold outcomes
    rw [List.flatMap_singleton, hemitted, hcall]
    exact Nat.le_of_eq (Nat.zero_add _)

/-! ## Whole runs

The balance of single calls added up over a stretch; it begins with at most one outcome owed. -/

theorem fail_state_ne_idle {s : Evse} {reason : Reason} (h : s.state ≠ .idle) :
    (s.fail reason).state ≠ .idle := by
  unfold fail
  split
  · exact h
  · exact fun h => by cases h

theorem finishSounding_state_ne_idle {s : Evse} {now : Instant} {run : Run}
    (hrun : s.run = some run) (h : s.state ≠ .idle) : (s.finishSounding now).state ≠ .idle := by
  by_cases hs : s.state = .sounding
  · rcases finishSounding_cases now hrun hs with
      ⟨-, hfin⟩ | ⟨profile, -, -, hfin⟩ | ⟨profile, -, -, hfin⟩
    · rw [hfin]; exact fail_state_ne_idle h
    · rw [hfin]; exact fail_state_ne_idle h
    · rw [hfin]
      rcases Nat.lt_or_ge aagLen profile.numGroups.toNat with hgroups | hgroups
      · rw [report_eq_of_lt hgroups]; exact fun h => by cases h
      · obtain ⟨o, -, hreport⟩ := report_eq hgroups now run (s := s)
        rw [hreport]; exact fun h => by cases h
  · rwa [finishSounding_of_ne hs]

/-- No call leaves a run behind in an idle station. -/
theorem IdleFree.call {s : Evse} (h : s.IdleFree) (c : Call) : (s.call c).IdleFree := by
  intro hidle
  have heffect := effect_call s c
  generalize hcall : s.call c = s' at heffect hidle
  cases heffect with
  | quiet => exact h hidle
  | opened hr ha =>
    obtain ⟨o, -, hopen⟩ := s.openRun_eq _ _ _
    rw [hopen] at hidle
    cases hidle
  | announced hr hb => exact absurd hidle (h.ne_idle hb)
  | sounded hr hb => exact absurd hidle (h.ne_idle hb)
  | soundedLast hr hb hl =>
    exact absurd hidle (finishSounding_state_ne_idle rfl (h.ne_idle hb))
  | rejected hr hb _ _ => exact absurd hidle (fail_state_ne_idle (h.ne_idle hb))
  | refused hr hb _ _ _ => exact absurd hidle (fail_state_ne_idle (h.ne_idle hb))
  | granted hr hb _ _ _ => cases hidle
  | windowClosed hd hs hrun _ =>
    refine absurd hidle (finishSounding_state_ne_idle hrun ?_)
    simp [hs]
  | timedOut hd hs =>
    refine absurd hidle (fail_state_ne_idle ?_)
    rcases hs with hs | hs <;> simp [hs]
  | lapsed hd => exact h hidle
  | observed profile => exact h hidle
  | reset => rfl
  | polledTransmit => exact h hidle
  | polledEvent => exact h hidle

theorem idleFree_after (config : EvseConfig) (calls : List Call) :
    (after config calls).IdleFree := by
  refine run_of_invariant (I := IdleFree) (A := fun _ => True) (fun s c h _ => h.call c) ?_
    fun _ _ => trivial
  exact fun _ => rfl

/-- The balance of a stretch in which no run is opened and no match is unsettled. -/
theorem credit_run (ys : List Call) {s : Evse} (hidle : s.IdleFree)
    (hopen : ∀ t ∈ trace call s ys, opening t = none)
    (hmatch : ∀ t ∈ trace call s ys,
      t.before.state = .matched → t.before.unsettles t.call = false) :
    (outcomes (trace call s ys)).length ≤ credit s.state := by
  induction ys generalizing s with
  | nil => exact Nat.zero_le _
  | cons c ys ih =>
    rw [trace_cons] at hopen hmatch ⊢
    have hstep := credit_step (c := c) hidle (hmatch _ (List.mem_cons_self ..))
      (hopen _ (List.mem_cons_self ..))
    have hrest := ih (hidle.call c) (fun t ht => hopen t (List.mem_cons_of_mem _ ht))
      (fun t ht => hmatch t (List.mem_cons_of_mem _ ht))
    have hcons : outcomes (taken call s c :: trace call (s.call c) ys)
        = outcomes [taken call s c] ++ outcomes (trace call (s.call c) ys) := by
      simp [outcomes]
    rw [hcons, List.length_append]
    omega

theorem credit_le_one (st : EvseState) : credit st ≤ 1 := by
  cases st <;> decide

/-- **A match is final, exactly.** A matched station stays matched until it is reset, and no run
has two outcomes, if and only if no `CM_SLAC_MATCH.REQ` and no rejecting `CM_ATTEN_CHAR.RSP` of
the run reaches the station while it is matched. -/
theorem match_final_iff (config : EvseConfig) (calls : List Call) :
    MatchFinal config calls ∧ OneOutcome config calls ↔ Undisturbed config calls := by
  have hcall : ∀ t ∈ history config calls,
      (t.before.state = .matched → t.call ≠ .reset →
          t.after.state = .matched ∧ ∀ reason, .failed reason ∉ emitted t)
        ↔ (t.before.state = .matched → t.before.unsettles t.call = false) := by
    intro t ht
    rw [eq_taken_of_mem_trace ht]
    constructor
    · intro h hs
      by_cases hreset : t.call = .reset
      · show t.before.unsettles t.call = false
        rw [hreset]
        rfl
      · exact (matched_call_iff hs hreset).mp (h hs hreset)
    · intro h hs hreset
      exact (matched_call_iff hs hreset).mpr (h hs)
  constructor
  · rintro ⟨hfinal, -⟩
    exact along_const.mpr fun t ht => (hcall t ht).mp (along_const.mp hfinal t ht)
  · intro h
    refine ⟨along_const.mpr fun t ht => (hcall t ht).mpr (along_const.mp h t ht), ?_⟩
    rintro xs ys zs rfl hopen
    have hmem : ∀ t ∈ trace call (after config xs) ys, t ∈ history config (xs ++ ys ++ zs) := by
      intro t ht
      unfold history
      rw [trace_append, trace_append]
      exact List.mem_append_left _ (List.mem_append_right _ ht)
    have hle := credit_run ys (idleFree_after config xs) hopen
      fun t ht => along_const.mp h t (hmem t ht)
    exact Nat.le_trans hle (credit_le_one _)

/-- A vehicle that repeats its key request turns its own match into a failure. -/
theorem not_match_final_repeatedRequest :
    ¬ (MatchFinal Sample.station
          ([Sample.parmReq, Sample.startAtten, .observe Sample.profile, Sample.sound,
            Sample.matchReq Sample.pevMac] ++ [Sample.matchReq Sample.pevMac])
        ∧ OneOutcome Sample.station
          ([Sample.parmReq, Sample.startAtten, .observe Sample.profile, Sample.sound,
            Sample.matchReq Sample.pevMac] ++ [Sample.matchReq Sample.pevMac])) := by
  rintro ⟨hfinal, -⟩
  unfold MatchFinal history at hfinal
  rw [trace_concat] at hfinal
  obtain ⟨hstate, -⟩ := ((along_concat _ _).mp hfinal).2 (by decide +kernel) (by decide +kernel)
  exact absurd hstate (by decide +kernel)

end Iso15118.Slac.Evse
