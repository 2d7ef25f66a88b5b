import Iso15118.Session.Iso2.Interlock

/-!
# Plug & Charge in the ISO 15118-2 flow

A contract pays for the session only over TLS, only with its certificate shown, and for the whole
of the session. The table says so in four places: the guard of `PaymentServiceSelectionReq`, the
guards of the requests that belong to a contract, the single arrow into certificate installation,
and the two arrows into authorization. `plugAndCharge_gated` is what they come to over a run.
-/

namespace Iso15118.Session.Iso2

open Iso15118.Lib

/-- The requests of a session a contract pays for. -/
def Request.plugAndCharge : Request → Bool
  | .paymentServiceSelection .contract | .paymentDetails | .certificateInstallation
  | .certificateUpdate | .meteringReceipt => true
  | _ => false

/-- The two ways to get a contract certificate. -/
def Request.certificate : Request → Bool
  | .certificateInstallation | .certificateUpdate => true
  | _ => false

/-- The requests before a payment option is selected. -/
def Request.Opening (r : Request) : Prop :=
  r = .sessionSetup ∨ r = .serviceDiscovery ∨ r = .serviceDetail

/-- The phases in which no payment option is selected yet. -/
def Phase.Opening (p : Phase) : Prop := p = .start ∨ p = .sessionSetup ∨ p = .serviceDiscovery

/-- The phases a session under contract can be in while no payment details have been shown: the
service is selected, a certificate may have been installed, or the session was given up. -/
def Phase.Undetailed (p : Phase) : Prop :=
  p = .serviceSelected ∨ p = .certificateInstalled ∨ p = .stopped ∨ p = .paused

/-! ## The arrows

What single arrows say about contracts and certificates, by cases on the table. -/

namespace Sequencer.Arrow

variable {s : Sequencer} {r : Request} {p : Phase}

/-- A request of Plug & Charge needs TLS, or the contract that was selected over it. -/
theorem plugAndCharge (h : s.Arrow r p) (hr : r.plugAndCharge = true) :
    s.security.permitsPlugAndCharge = true ∨ s.payment = some .contract := by
  cases h with
  | forward hf hstep =>
    cases hstep with
    | selectPayment option _ htls =>
      cases option with
      | contract => exact .inl (htls rfl)
      | externalPayment => cases hr
    | installCertificate _ hc | updateCertificate _ hc | paymentDetails _ hc
    | meteringReceipt _ hc => exact .inr hc
    | _ => cases hr
  | _ => cases hr

/-- An opening phase is reached from one, by an opening request. -/
theorem opening (h : s.Arrow r p) (hp : p.Opening) : s.phase.Opening ∧ r.Opening := by
  cases h with
  | forward hf hstep =>
    cases hstep with
    | sessionSetup hfrom | serviceDiscovery hfrom | serviceDetail hfrom =>
      exact ⟨by simp [Phase.Opening, hfrom], by simp [Request.Opening]⟩
    | _ => simp [Phase.Opening] at hp
  | _ => simp [Phase.Opening] at hp

/-- The payment option is selected in an opening phase. -/
theorem opening_of_selection {option : PaymentOption}
    (h : s.Arrow (.paymentServiceSelection option) p) :
    s.phase.Opening ∧ p = .serviceSelected := by
  cases h with
  | forward hf hstep =>
    cases hstep with
    | selectPayment _ hfrom _ => exact ⟨by simp [Phase.Opening, hfrom], rfl⟩

/-- A certificate is installed or updated with the service selected, and that phase is left. -/
theorem serviceSelected_of_certificate (h : s.Arrow r p) (hr : r.certificate = true) :
    s.phase = .serviceSelected ∧ p ≠ .serviceSelected := by
  cases h with
  | forward hf hstep =>
    cases hstep with
    | installCertificate hfrom _ | updateCertificate hfrom _ => exact ⟨hfrom, by simp⟩
    | _ => cases hr
  | _ => cases hr

/-- The service is selected by a payment option. -/
theorem selection_of_serviceSelected (h : s.Arrow r .serviceSelected) :
    ∃ option, r = .paymentServiceSelection option := by
  cases h with
  | forward hf hstep =>
    cases hstep with
    | selectPayment option _ _ => exact ⟨option, rfl⟩

/-- Under contract and without payment details there is no way on but to show them. -/
theorem undetailed (h : s.Arrow r p) (hc : s.payment = some .contract)
    (hfrom : s.phase.Undetailed) (hr : r ≠ .paymentDetails) :
    r ≠ .authorization ∧ p.Undetailed := by
  cases h with
  | forward hf hstep =>
    cases hstep with
    | installCertificate _ _ | updateCertificate _ _ =>
      exact ⟨by simp, .inr (.inl rfl)⟩
    | paymentDetails _ _ => exact absurd rfl hr
    | authorizeExternal _ hext => exact absurd hc hext
    -- every other arrow leaves a phase the session is not in
    | _ => rcases hfrom with hfrom | hfrom | hfrom | hfrom <;> simp_all
  | terminate _ => exact ⟨by simp, .inr (.inr (.inl rfl))⟩
  | pause _ _ => exact ⟨by simp, .inr (.inr (.inr rfl))⟩

end Sequencer.Arrow

/-- Only a selection changes the payment option. -/
theorem Sequencer.advance_payment {s : Sequencer} {r : Request} {p : Phase}
    (h : ∀ option, r ≠ .paymentServiceSelection option) :
    (s.advance r p).payment = s.payment := by
  cases r with
  | paymentServiceSelection option => exact absurd rfl (h option)
  | _ => rfl

/-! ## The invariant

What the phase tells of what has been accepted so far, as far as contracts go. It is kept along
every arrow. -/

theorem forall_requests_concat {log : List Accepted} {e : Accepted} {Q : Request → Prop}
    (hlog : ∀ r ∈ requests log, Q r) (he : Q e.request) :
    ∀ r ∈ requests (log ++ [e]), Q r := by
  intro r hr
  rw [requests_concat] at hr
  rcases List.mem_append.mp hr with hr | hr
  · exact hlog r hr
  · rw [List.mem_singleton.mp hr]
    exact he

/-- What the phase and the payment option say about the requests accepted so far. -/
structure Gated (s : Sequencer) (log : List Accepted) : Prop where
  opening : s.phase.Opening → s.payment = none ∧ ∀ r ∈ requests log, r.Opening
  selected : ∀ option, s.payment = some option ↔ .paymentServiceSelection option ∈ requests log
  secured : s.security = .none →
    s.payment ≠ some .contract ∧ ∀ r ∈ requests log, r.plugAndCharge = false
  uncertified : s.phase = .serviceSelected → (requests log).countP Request.certificate = 0
  certified : (requests log).countP Request.certificate ≤ 1
  undetailed : s.payment = some .contract → .paymentDetails ∉ requests log →
    .authorization ∉ requests log ∧ s.phase.Undetailed

theorem gated_new (security : Security) : Gated (.new security) [] where
  opening _ := ⟨rfl, fun r hr => by cases hr⟩
  selected _ := ⟨fun h => (by cases h), fun h => (by cases h)⟩
  secured _ := ⟨by simp [Sequencer.new], fun r hr => by cases hr⟩
  uncertified h := by cases h
  certified := Nat.zero_le _
  undetailed h := by cases h

theorem Request.Opening.not_certificate {r : Request} (h : r.Opening) : r.certificate = false := by
  rcases h with rfl | rfl | rfl <;> rfl

theorem Request.Opening.ne_authorization {r : Request} (h : r.Opening) : r ≠ .authorization := by
  rcases h with rfl | rfl | rfl <;> simp

/-- Nothing that belongs to a contract has been accepted in an opening phase. -/
theorem Gated.countP_opening {s : Sequencer} {log : List Accepted} (h : Gated s log)
    (hp : s.phase.Opening) : (requests log).countP Request.certificate = 0 := by
  rw [List.countP_eq_zero]
  intro r hr
  rw [((h.opening hp).2 r hr).not_certificate]
  exact Bool.false_ne_true

/-- An accepted request keeps the invariant. -/
theorem Gated.advance {s : Sequencer} {log : List Accepted} {r : Request} {p : Phase}
    (h : Gated s log) (harrow : s.Arrow r p) :
    Gated (s.advance r p) (log ++ [⟨s, r, p⟩]) where
  opening hp := by
    -- an opening phase is reached from an opening phase only, by a request that pays nothing
    obtain ⟨hfrom, hr⟩ := harrow.opening hp
    obtain ⟨hnone, hlog⟩ := h.opening hfrom
    refine ⟨?_, forall_requests_concat hlog hr⟩
    rw [Sequencer.advance_payment, hnone]
    rintro option rfl
    simp [Request.Opening] at hr
  selected option := by
    rw [requests_concat, List.mem_append, List.mem_singleton]
    -- the payment option is set by a selection, and by nothing else
    by_cases hsel : ∃ other, r = .paymentServiceSelection other
    · obtain ⟨other, rfl⟩ := hsel
      obtain ⟨hfrom, -⟩ := harrow.opening_of_selection
      have hnone : ¬ Request.paymentServiceSelection option ∈ requests log := by
        rw [← h.selected option, (h.opening hfrom).1]
        simp
      simp [Sequencer.advance, hnone, eq_comm]
    · have hne : ∀ other, r ≠ .paymentServiceSelection other := fun other heq => hsel ⟨other, heq⟩
      rw [Sequencer.advance_payment hne, h.selected option]
      exact ⟨.inl, fun hmem => hmem.resolve_right fun heq => hne option heq.symm⟩
  secured hsec := by
    obtain ⟨hpay, hlog⟩ := h.secured hsec
    have hr : r.plugAndCharge = false := by
      rw [Bool.eq_false_iff]
      intro hr
      rcases harrow.plugAndCharge hr with htls | hc
      · have hsec' : s.security = .none := hsec
        rw [hsec'] at htls
        cases htls
      · exact hpay hc
    refine ⟨?_, forall_requests_concat hlog hr⟩
    cases r with
    | paymentServiceSelection option =>
      cases option with
      | contract => cases hr
      | externalPayment => simp [Sequencer.advance]
    | _ => exact hpay
  uncertified hp := by
    obtain rfl : p = .serviceSelected := hp
    obtain ⟨option, rfl⟩ := harrow.selection_of_serviceSelected
    obtain ⟨hfrom, -⟩ := harrow.opening_of_selection
    rw [requests_concat, List.countP_append, h.countP_opening hfrom]
    rfl
  certified := by
    rw [requests_concat, List.countP_append, List.countP_singleton]
    by_cases hr : r.certificate = true
    · obtain ⟨hfrom, -⟩ := harrow.serviceSelected_of_certificate hr
      simp [h.uncertified hfrom, hr]
    · simpa [hr] using h.certified
  undetailed hc hnot := by
    rw [requests_concat, List.mem_append, List.mem_singleton, not_or] at hnot ⊢
    obtain ⟨hlog, hr⟩ := hnot
    by_cases hsel : ∃ other, r = .paymentServiceSelection other
    · obtain ⟨other, rfl⟩ := hsel
      obtain ⟨hfrom, rfl⟩ := harrow.opening_of_selection
      refine ⟨⟨fun hmem => ?_, by simp⟩, .inl rfl⟩
      exact ((h.opening hfrom).2 _ hmem).ne_authorization rfl
    · have hne : ∀ other, r ≠ .paymentServiceSelection other := fun other heq => hsel ⟨other, heq⟩
      rw [Sequencer.advance_payment hne] at hc
      obtain ⟨hauth, hfrom⟩ := h.undetailed hc hlog
      obtain ⟨hr', hp⟩ := harrow.undetailed hc hfrom (Ne.symm hr)
      exact ⟨⟨hauth, Ne.symm hr'⟩, hp⟩

/-- A recorded failure keeps the invariant. -/
theorem Gated.recordFailure {s : Sequencer} {log : List Accepted} (h : Gated s log) :
    Gated s.recordFailure log :=
  ⟨h.opening, h.selected, h.secured, h.uncertified, h.certified, h.undetailed⟩

/-- The security a session was created with stays. -/
@[simp] theorem Sequencer.call_security (s : Sequencer) (c : Call) :
    (s.call c).security = s.security := by
  rcases s.call_cases c with ⟨hcall, -⟩ | ⟨hcall, -⟩ | ⟨r, p, -, -, hcall, -⟩ <;> rw [hcall] <;> rfl

theorem Sequencer.after_security (security : Security) (calls : List Call) :
    (after security calls).security = security := by
  induction calls using List.reverseRecOn with
  | nil => rfl
  | append_singleton xs c ih => rw [after_concat, call_security, ih]

theorem gated_after (security : Security) (calls : List Call) :
    Gated (Sequencer.after security calls) (Sequencer.accepted security calls) := by
  induction calls using List.reverseRecOn with
  | nil => exact gated_new security
  | append_singleton xs c ih =>
    rw [Sequencer.after_concat, Sequencer.accepted_concat]
    rcases Sequencer.call_cases (Sequencer.after security xs) c with
      ⟨hcall, hlog⟩ | ⟨hcall, hlog⟩ | ⟨r, p, rfl, harrow, hcall, hlog⟩
    · rw [hcall, hlog, List.append_nil]
      exact ih
    · rw [hcall, hlog, List.append_nil]
      exact ih.recordFailure
    · rw [hcall, hlog]
      exact ih.advance harrow

/-! ## The four rules

Each rule is read off the invariant at the request it is about. -/

/-- The rules of Plug & Charge, in a run on a session created with `security`. -/
structure PlugAndChargeGated (security : Security) (calls : List Call) : Prop where
  /-- Without TLS nothing of Plug & Charge is accepted. -/
  secured : security = .none →
    ∀ r ∈ requests (Sequencer.accepted security calls), r.plugAndCharge = false
  /-- The session is paid for as it was selected. -/
  selected : ∀ option, (Sequencer.after security calls).payment = some option
    ↔ .paymentServiceSelection option ∈ requests (Sequencer.accepted security calls)
  /-- The payment option, once selected, is the one at every later point. -/
  kept : ∀ before rest, calls = before ++ rest → ∀ option,
    (Sequencer.after security before).payment = some option →
      (Sequencer.after security calls).payment = some option
  /-- One certificate is installed or updated, at most. -/
  certifiedOnce :
    (requests (Sequencer.accepted security calls)).countP Request.certificate ≤ 1
  /-- Under contract, no authorization and no phase after it without payment details. -/
  detailed : (Sequencer.after security calls).payment = some .contract →
    .paymentDetails ∉ requests (Sequencer.accepted security calls) →
      .authorization ∉ requests (Sequencer.accepted security calls)
        ∧ (Sequencer.after security calls).phase.Undetailed

theorem requests_accepted_append (security : Security) (before rest : List Call) {r : Request}
    (h : r ∈ requests (Sequencer.accepted security before)) :
    r ∈ requests (Sequencer.accepted security (before ++ rest)) := by
  unfold Sequencer.accepted requests at h ⊢
  rw [outputs_append, List.map_append]
  exact List.mem_append_left _ h

/-- **Plug & Charge, gated.** Every run keeps the rules. -/
theorem plugAndCharge_gated (security : Security) (calls : List Call) :
    PlugAndChargeGated security calls where
  secured hsec :=
    ((gated_after security calls).secured ((Sequencer.after_security _ _).trans hsec)).2
  selected := (gated_after security calls).selected
  kept := by
    rintro before rest rfl option hpay
    rw [(gated_after security before).selected] at hpay
    rw [(gated_after security (before ++ rest)).selected]
    exact requests_accepted_append security before rest hpay
  certifiedOnce := (gated_after security calls).certified
  detailed := (gated_after security calls).undetailed

end Iso15118.Session.Iso2
