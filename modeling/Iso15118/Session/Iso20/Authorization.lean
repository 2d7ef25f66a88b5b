import Iso15118.Session.Flow
import Iso15118.Session.Iso20.Interlock

/-!
# No ISO 15118-20 charge without authorization

The second generation authorizes first and selects a service afterwards, so everything from
`ServiceDiscoveryReq` on stands on an `AuthorizationReq`; and a message of a service's own set
stands on the selection of that service. Both are facts about a whole run: a service
renegotiation takes the session back to just after authorization from nine phases, with its
service forgotten, and the loop may be taken any number of times.

`charging_authorized` states them of the messages a flow accepts. A resumed session is another
matter: its authorization was given before the pause.
-/

namespace Iso15118.Session.Iso20

open Iso15118.Lib

/-! ## A flow as its caller drives it

Runs at the level of messages, since which message set a request is of is not known to the
sequencer. -/

/-- What a caller does to a flow that is never resumed: offer it a message, or tell it that a
`FAILED_*` response has gone past. -/
inductive Offer where
  | accept (message : Message)
  | failed
  deriving DecidableEq, Repr

/-- The flow after a call. -/
def Offer.apply (flow : Flow) : Offer → Flow
  | .accept message => (flow.accept message).2
  | .failed => flow.recordFailure

/-- What a call adds to the messages accepted: nothing when it is refused. -/
def Offer.logs (flow : Flow) : Offer → List Message
  | .accept message =>
      match (flow.accept message).1 with
      | .ok _ => [message]
      | .error _ => []
  | .failed => []

/-- The flow a run of `offers` on a fresh -20 flow leaves behind. -/
def flowAfter (offers : List Offer) : Flow := run Offer.apply (.iso20 .new) offers

/-- The messages a run of `offers` on a fresh -20 flow had accepted, in order. -/
def messagesAccepted (offers : List Offer) : List Message :=
  outputs Offer.apply Offer.logs (.iso20 .new) offers

@[simp] theorem flowAfter_concat (offers : List Offer) (offer : Offer) :
    flowAfter (offers ++ [offer]) = offer.apply (flowAfter offers) := run_concat ..

@[simp] theorem messagesAccepted_concat (offers : List Offer) (offer : Offer) :
    messagesAccepted (offers ++ [offer])
      = messagesAccepted offers ++ offer.logs (flowAfter offers) := outputs_concat ..

/-! ## What the messages say

Which messages authorize, select and renegotiate, and that no other message makes such a request. -/

/-- `AuthorizationReq`. -/
def IsAuthorization (m : Message) : Prop :=
  ∃ header rest, m = .iso20 (.request .authorization header rest)

/-- `ServiceSelectionReq`, naming the service `transfer`. -/
def SelectsService (transfer : EnergyTransfer) (m : Message) : Prop :=
  ∃ id header rest, m = .iso20 (.request (.serviceSelection id) header rest)
    ∧ EnergyTransfer.fromServiceId id = some transfer

/-- `SessionStopReq(ServiceRenegotiation)`. -/
def RenegotiatesService (m : Message) : Prop :=
  ∃ header rest, m = .iso20 (.request (.sessionStop .serviceRenegotiation) header rest)

/-- `transfer` is the selected service: the last accepted selection named it, and no service
renegotiation came after. -/
def Selected (log : List Message) (transfer : EnergyTransfer) : Prop :=
  ∃ selection later, Since (fun m => ∃ t, SelectsService t m) log selection later
    ∧ SelectsService transfer selection ∧ ∀ m ∈ later, ¬ RenegotiatesService m

/-- The phases before authorization, and those after the end. -/
def Phase.Unauthorized (p : Phase) : Prop :=
  p = .start ∨ p = .sessionSetup ∨ p = .authorizationSetup ∨ p = .stopped ∨ p = .paused

/-- The requests that only the common messages make. -/
def Request.Common (r : Request) : Prop :=
  r = .authorization ∨ (∃ t, r = .serviceSelection t) ∨ ∃ session, r = .sessionStop session

/-- The message sets of the services make none of the common requests. -/
theorem exists_common {m : Message} {r : Request} (h : Request.of m = some r) (hr : r.Common) :
    ∃ doc, m = .iso20 doc ∧ Request.ofCommon doc = some r := by
  cases m with
  | iso20 doc => exact ⟨doc, rfl, h⟩
  | iso20Dc doc =>
    exfalso
    simp only [Request.of] at h
    unfold Request.ofDc at h
    split at h <;> cases h <;> simp [Request.Common] at hr
  | iso20Wpt doc =>
    exfalso
    simp only [Request.of] at h
    unfold Request.ofWpt at h
    split at h <;> cases h <;> simp [Request.Common] at hr
  | iso20Acdp doc =>
    exfalso
    simp only [Request.of] at h
    unfold Request.ofAcdp at h
    split at h <;> cases h <;> simp [Request.Common] at hr
  | iso20Ac doc | iso20AcDerIec doc | iso20AcDerSae doc =>
    exfalso
    simp only [Request.of] at h
    unfold Request.ofAc at h
    split at h <;> cases h <;> simp [Request.Common] at hr
  | _ => cases h

theorem isAuthorization_of {m : Message} (h : Request.of m = some .authorization) :
    IsAuthorization m := by
  obtain ⟨doc, rfl, hdoc⟩ := exists_common h (.inl rfl)
  unfold Request.ofCommon at hdoc
  split at hdoc
  case h_3 header rest => exact ⟨header, rest, rfl⟩
  all_goals simp at hdoc

theorem selectsService_of {m : Message} {t : EnergyTransfer}
    (h : Request.of m = some (.serviceSelection t)) : SelectsService t m := by
  obtain ⟨doc, rfl, hdoc⟩ := exists_common h (.inr (.inl ⟨t, rfl⟩))
  unfold Request.ofCommon at hdoc
  split at hdoc
  case h_7 id header rest =>
    obtain ⟨t', ht', heq⟩ := Option.map_eq_some_iff.mp hdoc
    cases heq
    exact ⟨id, header, rest, rfl, ht'⟩
  all_goals simp at hdoc

theorem SelectsService.of_eq {m : Message} {t : EnergyTransfer} (h : SelectsService t m) :
    Request.of m = some (.serviceSelection t) := by
  obtain ⟨id, header, rest, rfl, hid⟩ := h
  simp only [Request.of, Request.ofCommon, hid, Option.map_some]

theorem RenegotiatesService.of_eq {m : Message} (h : RenegotiatesService m) :
    Request.of m = some (.sessionStop .serviceRenegotiation) := by
  obtain ⟨header, rest, rfl⟩ := h
  rfl

/-! ## The invariant

The phase tells whether there has been an authorization, and the selected service which selection
was the last. -/

/-- What the phase and the selected service say about the messages accepted so far. -/
structure Entitled (s : Sequencer) (log : List Message) : Prop where
  authorized : ¬ s.phase.Unauthorized → ∃ m ∈ log, IsAuthorization m
  selected : ∀ t, s.energyTransfer = some t → Selected log t

theorem entitled_new : Entitled .new [] where
  authorized h := absurd (.inl rfl) h
  selected _ h := by cases h

/-- Out of the phases before authorization only an `AuthorizationReq` leads on. -/
theorem Sequencer.Arrow.authorized {s : Sequencer} {r : Request} {p : Phase} (h : s.Arrow r p)
    (hp : ¬ p.Unauthorized) : r = .authorization ∨ ¬ s.phase.Unauthorized := by
  cases h with
  | forward hf hstep =>
    cases hstep with
    | authorize _ => exact .inl rfl
    | sessionSetup _ | authorizationSetup _ | installCertificate _ =>
      exact absurd (by simp [Phase.Unauthorized]) hp
    | discoverParameters hfrom | exchangeSchedule hfrom | preCharge hfrom | stopPower hfrom =>
      right
      rcases hfrom with hfrom | hfrom <;> simp [Phase.Unauthorized, hfrom]
    | _ => right; simp_all [Phase.Unauthorized]
  | renegotiateService _ hfrom =>
    right
    rcases hfrom with h | h | h | h | h | h | h | h | h <;> simp [Phase.Unauthorized, h]
  | _ => exact absurd (by simp [Phase.Unauthorized]) hp

theorem Selected.concat {log : List Message} {t : EnergyTransfer} {m : Message}
    (h : Selected log t) (hsel : ¬ ∃ t, SelectsService t m) (hstop : ¬ RenegotiatesService m) :
    Selected (log ++ [m]) t := by
  obtain ⟨selection, later, hsince, hservice, hlater⟩ := h
  refine ⟨selection, later ++ [m], hsince.concat hsel, hservice, fun m' hm' => ?_⟩
  rcases List.mem_append.mp hm' with hm' | hm'
  · exact hlater m' hm'
  · rw [List.mem_singleton.mp hm']
    exact hstop

theorem selected_concat_self {log : List Message} {t : EnergyTransfer} {m : Message}
    (h : SelectsService t m) : Selected (log ++ [m]) t :=
  ⟨m, [], since_concat_self ⟨t, h⟩, h, fun _ hm => by cases hm⟩

/-- An accepted message keeps the invariant. -/
theorem Entitled.advance {s : Sequencer} {log : List Message} {m : Message} {r : Request}
    {o : Bool} {p : Phase} (h : Entitled s log) (hof : Request.of m = some r)
    (harrow : s.Arrow r p) : Entitled (s.advance r o p) (log ++ [m]) where
  authorized hp := by
    rcases harrow.authorized hp with rfl | hfrom
    · exact ⟨m, List.mem_append_right _ (List.mem_singleton_self m), isAuthorization_of hof⟩
    · obtain ⟨m', hm', hauth⟩ := h.authorized hfrom
      exact ⟨m', List.mem_append_left _ hm', hauth⟩
  selected t ht := by
    by_cases hstop : r = .sessionStop .serviceRenegotiation
    · subst hstop
      cases ht
    by_cases hsel : (Passage.accepted r).Chooses
    · cases r with
      | serviceSelection t' =>
        cases ht
        exact selected_concat_self (selectsService_of hof)
      | _ => exact absurd hsel (fun h => h)
    · rw [Sequencer.advance_energyTransfer hsel hstop] at ht
      refine (h.selected t ht).concat ?_ ?_
      · rintro ⟨t', ht'⟩
        rw [ht'.of_eq] at hof
        cases hof
        exact hsel trivial
      · intro hreneg
        rw [hreneg.of_eq] at hof
        cases hof
        exact hstop rfl

/-- The message sets a session admits beside the common one are its service's. -/
theorem Sequencer.exists_of_admits {s : Sequencer} {p : V2gtp.PayloadType}
    (h : s.admits p = true) (hp : p ≠ .part20Main) :
    ∃ t, s.energyTransfer = some t ∧ t.service.admits p = true := by
  have hany : s.service.any (·.admits p) = true := by
    cases p with
    | part20Main => exact absurd rfl hp
    | _ => exact h
  cases hs : s.energyTransfer with
  | none => simp [service, hs] at hany
  | some t => exact ⟨t, rfl, by simpa [service, hs] using hany⟩

/-- The messages of a service's own set were accepted under that service. -/
abbrev Carried (log : List Message) : Prop :=
  Along (fun before m => m.payloadType ≠ .part20Main →
    ∃ t, Selected before t ∧ t.service.admits m.payloadType = true) log

/-- A run stays in the generation, its sequencer is entitled to the phase it is in, and what it
accepted it was entitled to. -/
theorem exists_entitled (offers : List Offer) :
    ∃ s, flowAfter offers = .iso20 s ∧ Entitled s (messagesAccepted offers)
      ∧ Carried (messagesAccepted offers) := by
  induction offers using List.reverseRecOn with
  | nil => exact ⟨.new, rfl, entitled_new, along_nil⟩
  | append_singleton offers offer ih =>
    obtain ⟨s, hs, hinv, hcarried⟩ := ih
    rw [flowAfter_concat, messagesAccepted_concat, hs]
    cases offer with
    | failed =>
      refine ⟨s.recordFailure, rfl, ?_⟩
      simp only [Offer.logs, List.append_nil]
      exact ⟨⟨hinv.authorized, hinv.selected⟩, hcarried⟩
    | accept m =>
      rcases Flow.accept_iso20_cases s m with
        ⟨-, h⟩ | ⟨r, e, -, h⟩ | ⟨r, p, hof, hadmits, hnext, h⟩
      · refine ⟨s, by simp only [Offer.apply, h], ?_⟩
        simp only [Offer.logs, h, List.append_nil]
        exact ⟨hinv, hcarried⟩
      · refine ⟨s, by simp only [Offer.apply, h], ?_⟩
        simp only [Offer.logs, h, List.append_nil]
        exact ⟨hinv, hcarried⟩
      · refine ⟨s.advance r (powerDeliveryOngoing m) p, by simp only [Offer.apply, h], ?_⟩
        simp only [Offer.logs, h]
        refine ⟨hinv.advance hof (Sequencer.arrow_of_nextPhase hnext), ?_⟩
        refine (along_concat _ _).mpr ⟨hcarried, fun hp => ?_⟩
        obtain ⟨t, ht, hservice⟩ := s.exists_of_admits hadmits hp
        exact ⟨t, hinv.selected t ht, hservice⟩

/-- **No charging without authorization.** After any messages offered to a fresh -20 flow, with
failures recorded anywhere: in every phase but the three before authorization and the two after
the end an `AuthorizationReq` has been accepted, and every message accepted that is not one of
the common messages was accepted while the selected service — the last selection, not undone by
a service renegotiation — admits its message set. -/
theorem charging_authorized (offers : List Offer) :
    (∃ s, flowAfter offers = .iso20 s
        ∧ (¬ s.phase.Unauthorized → ∃ m ∈ messagesAccepted offers, IsAuthorization m))
      ∧ ∀ before m after, messagesAccepted offers = before ++ m :: after →
          m.payloadType ≠ .part20Main →
            ∃ t, Selected before t ∧ t.service.admits m.payloadType = true := by
  obtain ⟨s, hs, hinv, hcarried⟩ := exists_entitled offers
  exact ⟨⟨s, hs, hinv.authorized⟩, hcarried⟩

end Iso15118.Session.Iso20
