import Iso15118.Session.Iso2.Sequencer

/-!
# The ISO 15118-2 DC safety interlock

Before DC power flows, the cable is tested for isolation faults (`CableCheckReq`) and the link
is brought to the battery's voltage (`PreChargeReq`). The flow asks for both on the way up and
waives them on a renegotiation, on the strength of the `renegotiated` flag: the contactors are
closed, so both are behind the session.

The flag outlives the transfer mode it was earned in. A session that charges over AC,
renegotiates, and comes back with a DC mode takes `PowerDeliveryReq(Start)` straight out of
parameter discovery, with neither test made. `dcInterlock_iff` says that this is the only way
to lose the interlock: it holds in a run exactly when every such shortcut is taken by a session
that has charged over DC before.
-/

namespace Iso15118.Session.Iso2

open Iso15118.Lib

/-! ## Tests made, power flowed

What the log of accepted requests says about the cable: both tests made in their order, and power
that has flowed. -/

/-- The requests of a log, in order. -/
def requests (log : List Accepted) : List Request := log.map (·.request)

/-- The isolation test and, after it, the pre-charge have been accepted. -/
def Tested (log : List Accepted) : Prop :=
  [Request.cableCheck, .preCharge].Sublist (requests log)

/-- Power has flowed in DC mode: some accepted request led to the charge loop with the DC mode
selected. -/
def ChargedDc (log : List Accepted) : Prop :=
  ∃ e ∈ log, e.next = .charging ∧ e.before.transfer = some .dc

/-- The sequencer would take `PowerDeliveryReq(Start)` straight out of parameter discovery in
DC mode, because `renegotiated` is set. -/
def Sequencer.Shortcut (s : Sequencer) : Prop :=
  s.failed = false ∧ s.phase = .chargeParameters ∧ s.transfer = some .dc ∧ s.renegotiated = true

@[simp] theorem requests_concat (log : List Accepted) (e : Accepted) :
    requests (log ++ [e]) = requests log ++ [e.request] := by
  simp [requests]

theorem Tested.concat {log : List Accepted} (h : Tested log) (e : Accepted) :
    Tested (log ++ [e]) := by
  unfold Tested
  rw [requests_concat]
  exact h.trans (List.sublist_append_left _ _)

theorem tested_concat_preCharge {log : List Accepted} (h : Request.cableCheck ∈ requests log)
    {e : Accepted} (he : e.request = .preCharge) : Tested (log ++ [e]) := by
  unfold Tested
  rw [requests_concat, he]
  exact (List.singleton_sublist.mpr h).append (List.Sublist.refl [Request.preCharge])

theorem Tested.preCharge_mem {log : List Accepted} (h : Tested log) :
    Request.preCharge ∈ requests log :=
  h.subset (by simp)

theorem ChargedDc.concat {log : List Accepted} (h : ChargedDc log) (e : Accepted) :
    ChargedDc (log ++ [e]) := by
  obtain ⟨f, hf, hnext, hdc⟩ := h
  exact ⟨f, List.mem_append_left _ hf, hnext, hdc⟩

/-! ## The interlock and its condition, along a run

The claim is about the states of a run and the condition about the calls in it. -/

/-- In every state the run passes through: charging in DC mode means the isolation test and the
pre-charge were made. -/
def DcInterlock (security : Security) (calls : List Call) : Prop :=
  ∀ before rest, calls = before ++ rest →
    (Sequencer.after security before).phase = .charging →
    (Sequencer.after security before).transfer = some .dc →
    Tested (Sequencer.accepted security before)

/-- Whenever the run offers `PowerDeliveryReq(Start)` where the shortcut is open, the session
has charged over DC before. -/
def ShortcutsEarned (security : Security) (calls : List Call) : Prop :=
  Along (fun before c => c = .accept (.powerDelivery .start) →
    (Sequencer.after security before).Shortcut →
      ChargedDc (Sequencer.accepted security before)) calls

/-! ## The condition is enough

`Interlocked` is the invariant: what each phase of the DC branch says about the log. The mode
does not change inside the charge loop, so charging in DC mode means that the step into the
loop was made in DC mode — which is what `ChargedDc` records. -/

structure Interlocked (s : Sequencer) (log : List Accepted) : Prop where
  checked : s.phase = .cableCheck → Request.cableCheck ∈ requests log
  tested : s.phase = .preCharge → Tested log
  charging : s.phase = .charging → s.transfer = some .dc → ChargedDc log
  charged : ChargedDc log → Tested log

theorem interlocked_new (security : Security) : Interlocked (.new security) [] where
  checked h := by cases h
  tested h := by cases h
  charging h := by cases h
  charged h := by
    obtain ⟨e, he, -⟩ := h
    cases he

/-- A step into the charge loop in DC mode is made by a tested session: from the pre-charge,
from inside the loop, or through the shortcut — and there the condition answers. -/
theorem Interlocked.tested_of_charging {s : Sequencer} {log : List Accepted} {r : Request}
    (h : Interlocked s log) (harrow : s.Arrow r .charging) (hdc : s.transfer = some .dc)
    (hshort : r = .powerDelivery .start → s.Shortcut → ChargedDc log) : Tested log := by
  cases harrow with
  | forward hf hstep =>
    cases hstep with
    | startDirectly hp hmode =>
      have hreneg : s.renegotiated = true := hmode.resolve_left fun hne => hne hdc
      exact h.charged (hshort rfl ⟨hf, hp, hdc, hreneg⟩)
    | startAfterPreCharge hp => exact h.tested hp
    | chargingStatus hp hac => exact absurd hdc hac
    | currentDemand hp _ => exact h.charged (h.charging hp hdc)
    | meteringReceipt hp _ => exact h.charged (h.charging hp hdc)

/-- An accepted request keeps the invariant. -/
theorem Interlocked.advance {s : Sequencer} {log : List Accepted} {r : Request} {p : Phase}
    (h : Interlocked s log) (harrow : s.Arrow r p)
    (hshort : r = .powerDelivery .start → s.Shortcut → ChargedDc log) :
    Interlocked (s.advance r p) (log ++ [⟨s, r, p⟩]) where
  checked hp := by
    obtain rfl : p = .cableCheck := hp
    have hr : r = .cableCheck := by
      cases harrow with
      | forward hf hstep => cases hstep <;> rfl
    rw [requests_concat, hr]
    exact List.mem_append_right _ (by simp)
  tested hp := by
    obtain rfl : p = .preCharge := hp
    cases harrow with
    | forward hf hstep =>
      cases hstep with
      | preCharge hfrom =>
        rcases hfrom with hfrom | hfrom
        · exact tested_concat_preCharge (h.checked hfrom) rfl
        · exact (h.tested hfrom).concat _
  charging hp hdc := by
    obtain rfl : p = .charging := hp
    -- no arrow into the loop carries a transfer mode, so the mode is the one before the step
    have hmode : s.transfer = some .dc := by
      cases harrow with
      | forward hf hstep => cases hstep <;> exact hdc
    exact ⟨_, List.mem_append_right _ (List.mem_singleton_self _), rfl, hmode⟩
  charged hcharged := by
    obtain ⟨e, he, hnext, hdc⟩ := hcharged
    rcases List.mem_append.mp he with he | he
    · exact (h.charged ⟨e, he, hnext, hdc⟩).concat _
    · obtain rfl := List.mem_singleton.mp he
      obtain rfl : p = .charging := hnext
      exact (h.tested_of_charging harrow hdc hshort).concat _

/-- A recorded failure keeps the invariant. -/
theorem Interlocked.recordFailure {s : Sequencer} {log : List Accepted} (h : Interlocked s log) :
    Interlocked s.recordFailure log :=
  ⟨h.checked, h.tested, h.charging, h.charged⟩

theorem interlocked_of_shortcutsEarned {security : Security} {calls : List Call}
    (h : ShortcutsEarned security calls) :
    Interlocked (Sequencer.after security calls) (Sequencer.accepted security calls) := by
  refine h.induction
    (motive := fun xs => Interlocked (Sequencer.after security xs) (Sequencer.accepted security xs))
    (interlocked_new security) fun xs c ih hc => ?_
  rw [Sequencer.after_concat, Sequencer.accepted_concat]
  rcases Sequencer.call_cases (Sequencer.after security xs) c with
    ⟨hcall, hlog⟩ | ⟨hcall, hlog⟩ | ⟨r, p, rfl, harrow, hcall, hlog⟩
  · rw [hcall, hlog, List.append_nil]
    exact ih
  · rw [hcall, hlog, List.append_nil]
    exact ih.recordFailure
  · rw [hcall, hlog]
    exact ih.advance harrow fun hr => hc (congrArg Call.accept hr)

/-! ## The condition is needed

Conversely, a session that has pre-charged and is back in parameter discovery has charged over
DC: the pre-charge phase is entered in DC mode only, and the only way on from it that does not
end the session is `PowerDeliveryReq(Start)`. -/

structure PreCharged (s : Sequencer) (log : List Accepted) : Prop where
  mode : s.phase = .cableCheck ∨ s.phase = .preCharge → s.transfer = some .dc
  next : Request.preCharge ∈ requests log →
    s.phase = .preCharge ∨ s.phase = .stopped ∨ ChargedDc log

/-- What the older generation has tested stays tested across an accepted request. -/
theorem PreCharged.advance {s : Sequencer} {log : List Accepted} {r : Request} {p : Phase}
    (h : PreCharged s log) (harrow : s.Arrow r p) :
    PreCharged (s.advance r p) (log ++ [⟨s, r, p⟩]) where
  mode hp := by
    have hto : p = .cableCheck ∨ p = .preCharge := hp
    rcases hto with rfl | rfl
    · cases harrow with
      | forward hf hstep =>
        cases hstep with
        | beginCableCheck _ hdc => exact hdc
        | repeatCableCheck hfrom => exact h.mode (.inl hfrom)
    · cases harrow with
      | forward hf hstep =>
        cases hstep with
        | preCharge hfrom => exact h.mode hfrom
  next hmem := by
    rw [requests_concat, List.mem_append] at hmem
    by_cases hr : r = .preCharge
    -- the pre-charge itself leads to the pre-charge
    · subst hr
      cases harrow with
      | forward hf hstep => cases hstep; exact .inl rfl
    · have hbefore : Request.preCharge ∈ requests log :=
        hmem.resolve_right fun h => hr (List.mem_singleton.mp h).symm
      rcases h.next hbefore with hfrom | hfrom | hcharged
      · -- out of the pre-charge: into the loop in DC mode, or to the end of the session
        have hdc := h.mode (.inr hfrom)
        cases harrow with
        | forward hf hstep =>
          cases hstep with
          | startAfterPreCharge _ =>
            exact .inr (.inr ⟨_, List.mem_append_right _ (List.mem_singleton_self _), rfl, hdc⟩)
          | preCharge _ => exact absurd rfl hr
          | _ => simp_all
        | terminate _ => exact .inr (.inl rfl)
        | pause _ hl => exact absurd (.inr (.inl hfrom)) hl
      · -- nothing leaves a stopped session
        cases harrow with
        | forward hf hstep => cases hstep <;> simp_all
        | terminate hp => exact absurd (.inr (.inl hfrom)) hp
        | pause hp _ => exact absurd (.inr (.inl hfrom)) hp
      · exact .inr (.inr (hcharged.concat _))

theorem preCharged_after (security : Security) (calls : List Call) :
    PreCharged (Sequencer.after security calls) (Sequencer.accepted security calls) := by
  induction calls using List.reverseRecOn with
  | nil =>
    refine ⟨?_, fun h => by cases h⟩
    rintro (h | h) <;> cases h
  | append_singleton xs c ih =>
    rw [Sequencer.after_concat, Sequencer.accepted_concat]
    rcases Sequencer.call_cases (Sequencer.after security xs) c with
      ⟨hcall, hlog⟩ | ⟨hcall, hlog⟩ | ⟨r, p, rfl, harrow, hcall, hlog⟩
    · rw [hcall, hlog, List.append_nil]
      exact ih
    · rw [hcall, hlog, List.append_nil]
      exact ⟨ih.mode, ih.next⟩
    · rw [hcall, hlog]
      exact ih.advance harrow

/-- Where the shortcut is open, `PowerDeliveryReq(Start)` is accepted and leads to the charge
loop in DC mode. -/
theorem Sequencer.Shortcut.start {s : Sequencer} (h : s.Shortcut) :
    s.nextPhase (.powerDelivery .start) = some .charging := by
  obtain ⟨hf, hp, hdc, hreneg⟩ := h
  simp [nextPhase, flow, hf, hp, hreneg]

/-- **The DC interlock, exactly.** In a run on a fresh session the isolation test and the
pre-charge precede every DC charge if and only if every `PowerDeliveryReq(Start)` taken straight
out of parameter discovery in DC mode, on the strength of `renegotiated`, comes from a session
that has charged over DC before. -/
theorem dcInterlock_iff (security : Security) (calls : List Call) :
    DcInterlock security calls ↔ ShortcutsEarned security calls := by
  constructor
  · rintro h before c after heq rfl hshort
    -- the shortcut is taken, so the state after it is charging in DC mode, and tested
    have hnext := hshort.start
    have htested := h (before ++ [.accept (.powerDelivery .start)]) after (by simp [heq])
      (by simp [Sequencer.call, Sequencer.accept, hnext, Sequencer.advance])
      (by simpa [Sequencer.call, Sequencer.accept, hnext, Sequencer.advance] using hshort.2.2.1)
    rw [Sequencer.accepted_concat] at htested
    have hpre : Request.preCharge ∈ requests (Sequencer.accepted security before) := by
      simpa [Sequencer.logs, hnext] using htested.preCharge_mem
    have hphase := hshort.2.1
    rcases (preCharged_after security before).next hpre with hp | hp | hcharged
    · rw [hp] at hphase; cases hphase
    · rw [hp] at hphase; cases hphase
    · exact hcharged
  · rintro h before rest rfl hp hdc
    have hinv := interlocked_of_shortcutsEarned h.of_append
    exact hinv.charged (hinv.charging hp hdc)

/-- An AC charge, renegotiated, switched to DC and started again: the sequencer charges in DC
mode with no cable check and no pre-charge behind it. -/
theorem not_dcInterlock_acToDc :
    ¬ DcInterlock .tls
      [.accept .sessionSetup, .accept .serviceDiscovery,
        .accept (.paymentServiceSelection .externalPayment), .accept .authorization,
        .accept (.chargeParameterDiscovery .acThreePhaseCore), .accept (.powerDelivery .start),
        .accept (.powerDelivery .renegotiate),
        .accept (.chargeParameterDiscovery .dcExtended), .accept (.powerDelivery .start)] := by
  intro h
  have htested := h _ [] (List.append_nil _).symm (by decide) (by decide)
  exact absurd htested.preCharge_mem (by decide)

end Iso15118.Session.Iso2
