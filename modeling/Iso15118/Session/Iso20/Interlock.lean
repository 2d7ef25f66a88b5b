import Iso15118.Session.Iso20.Sequencer

/-!
# The ISO 15118-20 DC safety interlock

As in -2, a DC session is tested before power flows — `DC_CableCheckReq`, then
`DC_PreChargeReq` — and the tests are waived for a session that comes back to parameter
discovery from a charge, on the strength of `renegotiated`. What differs is that the flag does
not outlive the service: a service renegotiation and a resume both clear it, and a service can
be selected only after one of them or at the beginning. `charging_dc_tested` is the interlock
over every run, resumed ones included.

The tests that count are those made since the service was chosen, so the history a run is judged
by (**`Sequencer.history`**) holds the resumes as well as the accepted requests.
-/

namespace Iso15118.Session.Iso20

open Iso15118.Lib

/-! ## The history of a session

Accepted requests and resumes in one list. A stretch begins where a service is chosen, and the
tests that count are those in the last stretch. -/

/-- What a session has been through: a request accepted, or a resume. -/
inductive Passage where
  | accepted (request : Request)
  | resumed (transfer : EnergyTransfer)
  deriving DecidableEq, Repr

/-- The service was chosen here: selected, or brought back by a resume. -/
def Passage.Chooses : Passage → Prop
  | .accepted (.serviceSelection _) => True
  | .accepted _ => False
  | .resumed _ => True

/-- What a call adds to the history: a refused request and a recorded failure add nothing. -/
def Sequencer.passes (s : Sequencer) : Call → List Passage
  | .resume transfer => [.resumed transfer]
  | c => (s.logs c).map fun e => .accepted e.request

/-- The history of a run of `calls` on a fresh session, in order. -/
def Sequencer.history (calls : List Call) : List Passage :=
  outputs call passes new calls

/-- The isolation test and, after it, the pre-charge have been accepted. -/
def Tested (log : List Passage) : Prop :=
  [Passage.accepted .cableCheck, .accepted .preCharge].Sublist log

@[simp] theorem Sequencer.history_concat (calls : List Call) (c : Call) :
    history (calls ++ [c]) = history calls ++ (after calls).passes c := outputs_concat ..

theorem Tested.concat {log : List Passage} (h : Tested log) (e : Passage) : Tested (log ++ [e]) :=
  h.trans (List.sublist_append_left _ _)

theorem tested_concat_preCharge {log : List Passage} (h : Passage.accepted .cableCheck ∈ log) :
    Tested (log ++ [.accepted .preCharge]) :=
  (List.singleton_sublist.mpr h).append (List.Sublist.refl [Passage.accepted .preCharge])

/-! ## The invariant

`Proven` is what the phase and the flags say about the requests accepted since the service was
chosen; `Interlocked` ties that stretch of the history to the session. A session that has not got
as far as selecting a service, or that has just given one up, has no service and no waiver. -/

/-- The phases of a charge, its standby and its end, from which a session may come back to
parameter discovery. -/
def Phase.Powered (p : Phase) : Prop := p = .charging ∨ p = .standby ∨ p = .powerStopped

/-- The phases in which no service is selected yet. -/
def Phase.Unserved (p : Phase) : Prop :=
  p = .start ∨ p = .sessionSetup ∨ p = .authorizationSetup ∨ p = .authorized
    ∨ p = .serviceDiscovery

structure Proven (s : Sequencer) (later : List Passage) : Prop where
  checked : s.phase = .cableCheck → Passage.accepted .cableCheck ∈ later
  tested : s.phase = .preCharge → Tested later
  powered : s.phase.Powered → s.dc = true → Tested later
  waived : s.renegotiated = true → s.dc = true → Tested later

structure Interlocked (s : Sequencer) (log : List Passage) : Prop where
  unserved : s.phase.Unserved → s.energyTransfer = none ∧ s.renegotiated = false
  served : ∀ transfer, s.energyTransfer = some transfer →
    ∃ choice later, Since Passage.Chooses log choice later ∧ Proven s later

theorem interlocked_new : Interlocked .new [] where
  unserved _ := ⟨rfl, rfl⟩
  served _ h := by cases h

/-- Right after the service was chosen nothing has been tested and nothing is waived. -/
theorem proven_chosen {s : Sequencer} (hp : s.phase = .serviceSelected)
    (hr : s.renegotiated = false) : Proven s [] where
  checked h := by rw [hp] at h; cases h
  tested h := by rw [hp] at h; cases h
  powered h := by rw [hp] at h; rcases h with h | h | h <;> cases h
  waived h := by rw [hr] at h; cases h

namespace Sequencer

/-- Only a selection and a service renegotiation change the service. -/
theorem advance_energyTransfer {s : Sequencer} {r : Request} {o : Bool} {p : Phase}
    (hsel : ¬ (Passage.accepted r).Chooses) (hstop : r ≠ .sessionStop .serviceRenegotiation) :
    (s.advance r o p).energyTransfer = s.energyTransfer := by
  cases r with
  | serviceSelection t => exact absurd trivial hsel
  | sessionStop session =>
    cases session with
    | serviceRenegotiation => exact absurd rfl hstop
    | _ => rfl
  | _ => rfl

theorem advance_dc {s : Sequencer} {r : Request} {o : Bool} {p : Phase}
    (hsel : ¬ (Passage.accepted r).Chooses) (hstop : r ≠ .sessionStop .serviceRenegotiation) :
    (s.advance r o p).dc = s.dc := by
  unfold dc service
  rw [advance_energyTransfer hsel hstop]

/-- The waiver is earned on the way back to parameter discovery from a charge, or was there
before. -/
theorem waived_of_advance {s : Sequencer} {r : Request} {o : Bool} {p : Phase}
    (h : (s.advance r o p).renegotiated = true) : s.renegotiated = true ∨ s.phase.Powered := by
  have hflag : (s.renegotiated || decide (p = .chargeParameters
      ∧ (s.phase = .charging ∨ s.phase = .standby ∨ s.phase = .powerStopped))) = true := by
    cases r with
    | sessionStop session => cases session <;> first | exact h | cases h
    | _ => exact h
  rw [Bool.or_eq_true, decide_eq_true_iff] at hflag
  exact hflag.imp_right And.right

end Sequencer

/-- A request that neither chooses nor gives up a service keeps what is known since the service
was chosen. -/
theorem Proven.advance {s : Sequencer} {later : List Passage} {r : Request} {o : Bool} {p : Phase}
    (h : Proven s later) (harrow : s.Arrow r p) (hsel : ¬ (Passage.accepted r).Chooses)
    (hstop : r ≠ .sessionStop .serviceRenegotiation) :
    Proven (s.advance r o p) (later ++ [.accepted r]) where
  -- the cable check is entered by its own request
  checked hp := by
    obtain rfl : p = .cableCheck := hp
    have hr : r = .cableCheck := by
      cases harrow with
      | forward hf hstep => cases hstep <;> rfl
    rw [hr]
    exact List.mem_append_right _ (List.mem_singleton_self _)
  -- the pre-charge is entered from the cable check, or from itself
  tested hp := by
    obtain rfl : p = .preCharge := hp
    cases harrow with
    | forward hf hstep =>
      cases hstep with
      | preCharge hfrom =>
        rcases hfrom with hfrom | hfrom
        · exact tested_concat_preCharge (h.checked hfrom)
        · exact (h.tested hfrom).concat _
  -- in a powered phase the tests were made before, or are waived
  powered hp hdc := by
    rw [Sequencer.advance_dc hsel hstop] at hdc
    have hto : p = .charging ∨ p = .standby ∨ p = .powerStopped := hp
    -- every arrow into a powered phase leaves one, ends the pre-charge, or uses the waiver
    have hbefore : s.phase = .preCharge ∨ s.phase.Powered ∨ s.renegotiated = true := by
      cases harrow with
      | forward hf hstep =>
        cases hstep with
        | startDirectly _ hguard => exact .inr (.inr (hguard.resolve_left fun hno => hno hdc))
        | startAfterPreCharge hfrom => exact .inl hfrom
        | repeatStart hfrom _ => exact .inr (.inl (.inl hfrom))
        | chargeLoop hfrom => exact .inr (.inl (.inl hfrom))
        | confirmMetering hfrom => exact .inr (.inl (.inl hfrom))
        | standBy hfrom => exact .inr (.inl (.inl hfrom))
        | startAfterStandby hfrom => exact .inr (.inl (.inr (.inl hfrom)))
        | stopPower hfrom =>
          rcases hfrom with hfrom | hfrom
          · exact .inr (.inl (.inr (.inl hfrom)))
          · exact .inr (.inl (.inl hfrom))
        | checkOut hfrom _ => exact .inr (.inl (.inr (.inr hfrom)))
        | controlAfter hfrom _ => exact .inr (.inl (.inr (.inr hfrom)))
        | _ => simp at hto
      | _ => simp at hto
    rcases hbefore with hfrom | hfrom | hwaived
    · exact (h.tested hfrom).concat _
    · exact (h.powered hfrom hdc).concat _
    · exact (h.waived hwaived hdc).concat _
  -- a waiver is as old as the charge it was earned in
  waived hwaived hdc := by
    rw [Sequencer.advance_dc hsel hstop] at hdc
    rcases Sequencer.waived_of_advance hwaived with hbefore | hfrom
    · exact (h.waived hbefore hdc).concat _
    · exact (h.powered hfrom hdc).concat _

/-- A phase without a service is reached from one, or by giving the service up. -/
theorem Sequencer.Arrow.unserved {s : Sequencer} {r : Request} {p : Phase} (h : s.Arrow r p)
    (hp : p.Unserved) (hstop : r ≠ .sessionStop .serviceRenegotiation) :
    s.phase.Unserved ∧ ¬ (Passage.accepted r).Chooses := by
  cases h with
  | forward hf hstep =>
    cases hstep with
    | sessionSetup hfrom | authorizationSetup hfrom | installCertificate hfrom
    | serviceDiscovery hfrom | serviceDetail hfrom =>
      exact ⟨by simp [Phase.Unserved, hfrom], fun h => h⟩
    | authorize hfrom =>
      refine ⟨?_, fun h => h⟩
      rcases hfrom with hfrom | hfrom <;> simp [Phase.Unserved, hfrom]
    | _ => simp [Phase.Unserved] at hp
  | renegotiateService _ _ => exact absurd rfl hstop
  | _ => simp [Phase.Unserved] at hp

theorem Phase.Unserved.not_powered {p : Phase} (h : p.Unserved) : ¬ p.Powered := by
  rcases h with rfl | rfl | rfl | rfl | rfl <;> simp [Phase.Powered]

/-- A service is selected before one is: only in service discovery. -/
theorem Sequencer.Arrow.unserved_of_selection {s : Sequencer} {t : EnergyTransfer} {p : Phase}
    (h : s.Arrow (.serviceSelection t) p) : s.phase.Unserved ∧ p = .serviceSelected := by
  cases h with
  | forward hf hstep =>
    cases hstep with
    | selectService _ hfrom => exact ⟨by simp [Phase.Unserved, hfrom], rfl⟩

/-! ## Each call keeps it

One lemma for each kind of call. A request that chooses a service or gives one up begins a new
stretch, and any other one extends it. -/

/-- A service given up: no service, no waiver. -/
theorem interlocked_renegotiateService (s : Sequencer) (o : Bool) (p : Phase)
    (log : List Passage) :
    Interlocked (s.advance (.sessionStop .serviceRenegotiation) o p) log where
  unserved _ := ⟨rfl, rfl⟩
  served _ h := by cases h

/-- A session without a service earns no waiver. -/
theorem Interlocked.not_waived {s : Sequencer} {log : List Passage} (h : Interlocked s log)
    (hfrom : s.phase.Unserved) (r : Request) (o : Bool) (p : Phase) :
    (s.advance r o p).renegotiated = false := by
  rw [Bool.eq_false_iff]
  intro hwaived
  rcases Sequencer.waived_of_advance hwaived with hbefore | hpowered
  · rw [(h.unserved hfrom).2] at hbefore
    cases hbefore
  · exact hfrom.not_powered hpowered

/-- An accepted request keeps the invariant. -/
theorem Interlocked.advance {s : Sequencer} {log : List Passage} {r : Request} {o : Bool}
    {p : Phase} (h : Interlocked s log) (harrow : s.Arrow r p) :
    Interlocked (s.advance r o p) (log ++ [.accepted r]) := by
  by_cases hstop : r = .sessionStop .serviceRenegotiation
  · subst hstop
    exact interlocked_renegotiateService s o p _
  refine ⟨fun hp => ?_, fun t ht => ?_⟩
  · obtain ⟨hfrom, hsel⟩ := harrow.unserved hp hstop
    refine ⟨?_, h.not_waived hfrom r o p⟩
    rw [Sequencer.advance_energyTransfer hsel hstop]
    exact (h.unserved hfrom).1
  · by_cases hsel : (Passage.accepted r).Chooses
    · -- the selection itself: the stretch that counts begins here
      obtain ⟨t', rfl⟩ : ∃ t', r = .serviceSelection t' := by
        cases r with
        | serviceSelection t' => exact ⟨t', rfl⟩
        | _ => exact absurd hsel (fun h => h)
      obtain ⟨hfrom, rfl⟩ := harrow.unserved_of_selection
      exact ⟨_, [], since_concat_self hsel, proven_chosen rfl (h.not_waived hfrom _ o _)⟩
    · rw [Sequencer.advance_energyTransfer hsel hstop] at ht
      obtain ⟨choice, later, hsince, hproven⟩ := h.served t ht
      exact ⟨choice, _, hsince.concat hsel, hproven.advance harrow hsel hstop⟩

/-- A recorded failure keeps the invariant. -/
theorem Interlocked.recordFailure {s : Sequencer} {log : List Passage} (h : Interlocked s log) :
    Interlocked s.recordFailure log := by
  refine ⟨h.unserved, fun t ht => ?_⟩
  obtain ⟨choice, later, hsince, hproven⟩ := h.served t ht
  exact ⟨choice, later, hsince,
    ⟨hproven.checked, hproven.tested, hproven.powered, hproven.waived⟩⟩

/-- A resumed session starts over from the selected service. -/
theorem interlocked_resume (s : Sequencer) (t : EnergyTransfer) (log : List Passage) :
    Interlocked (s.resume t) (log ++ [.resumed t]) := by
  refine ⟨fun hp => ?_, fun _ _ => ?_⟩
  · have hp' : Phase.Unserved .serviceSelected := hp
    simp [Phase.Unserved] at hp'
  · exact ⟨_, [], since_concat_self trivial, proven_chosen rfl rfl⟩

/-- **Interlock.** Every reachable sequencer has made its tests, by induction on the calls. -/
theorem interlocked_after (calls : List Call) :
    Interlocked (Sequencer.after calls) (Sequencer.history calls) := by
  induction calls using List.reverseRecOn with
  | nil => exact interlocked_new
  | append_singleton xs c ih =>
    rw [Sequencer.after_concat, Sequencer.history_concat]
    generalize Sequencer.after xs = s at ih ⊢
    cases c with
    | failed =>
      have hpasses : s.passes .failed = [] := rfl
      rw [hpasses, List.append_nil]
      exact ih.recordFailure
    | resume t => exact interlocked_resume s t _
    | accept r o =>
      cases hnext : s.nextPhase r with
      | none =>
        have hpasses : s.passes (.accept r o) = [] := by
          simp [Sequencer.passes, Sequencer.logs, hnext]
        have hcall : s.call (.accept r o) = s := by
          simp [Sequencer.call, Sequencer.acceptProcessing, hnext]
        rw [hpasses, hcall, List.append_nil]
        exact ih
      | some p =>
        have hpasses : s.passes (.accept r o) = [.accepted r] := by
          simp [Sequencer.passes, Sequencer.logs, hnext]
        have hcall : s.call (.accept r o) = s.advance r o p := by
          simp [Sequencer.call, Sequencer.acceptProcessing, hnext]
        rw [hpasses, hcall]
        exact ih.advance (Sequencer.arrow_of_nextPhase hnext)

/-- **The DC interlock.** Whenever a run on a fresh session is charging with a DC service, the
cable check and after it the pre-charge were accepted since the service was last chosen — by the
last accepted selection or the last resume, whichever is later. -/
theorem charging_dc_tested (calls : List Call) (hp : (Sequencer.after calls).phase = .charging)
    (hdc : (Sequencer.after calls).dc = true) :
    ∃ choice later, Since Passage.Chooses (Sequencer.history calls) choice later
      ∧ Tested later := by
  obtain ⟨t, ht⟩ : ∃ t, (Sequencer.after calls).energyTransfer = some t := by
    cases h : (Sequencer.after calls).energyTransfer with
    | none => simp [Sequencer.dc, Sequencer.service, h] at hdc
    | some t => exact ⟨t, rfl⟩
  obtain ⟨choice, later, hsince, hproven⟩ := (interlocked_after calls).served t ht
  exact ⟨choice, later, hsince, hproven.powered (.inl hp) hdc⟩

/-- A DC session that is paused, resumed, tested again and charging. -/
theorem charging_dc_tested_resumed :
    ∃ choice later, Since Passage.Chooses
      (Sequencer.history [.accept .sessionSetup false, .accept .authorizationSetup false,
        .accept .authorization false, .accept (.sessionStop .pause) false,
        .resume ⟨.dc, false⟩, .accept .chargeParameterDiscovery false,
        .accept .scheduleExchange false, .accept .cableCheck false, .accept .preCharge false,
        .accept (.powerDelivery .start) true]) choice later ∧ Tested later :=
  charging_dc_tested _ (by decide) (by decide)

end Iso15118.Session.Iso20
