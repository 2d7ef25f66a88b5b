import Iso15118.Message.Basic

/-!
# What a name says about a message set

A request and its answer are paired by name, and names are not unique to a message set: the three
AC sets of ISO 15118-20 share theirs, and the two generations share some. Within a generation a
name still gives away which **`Family`** of sets it is from, so that all there is to ask besides is
which of the AC sets it is: **`payloadType_eq_iff`**.
-/

namespace Iso15118.Message

/-- The message sets, with those that share their names taken together. -/
inductive Family where
  | handshake
  | iso2
  | common
  | ac
  | dc
  | wpt
  | acdp
  deriving DecidableEq, Repr

def family : Message → Family
  | .appProtocolReq _ | .appProtocolRes _ => .handshake
  | .iso2 _ => .iso2
  | .iso20 _ => .common
  | .iso20Ac _ | .iso20AcDerIec _ | .iso20AcDerSae _ => .ac
  | .iso20Dc _ => .dc
  | .iso20Wpt _ => .wpt
  | .iso20Acdp _ => .acdp

/-- Which of the AC sets a message is from. -/
def acSet : Message → Option Iso20Set
  | .iso20Ac _ => some .ac
  | .iso20AcDerIec _ => some .acDerIec
  | .iso20AcDerSae _ => some .acDerSae
  | _ => none

/-- The -20 family the messages of an exchange are from, by its name. -/
def familyOf (stem : String) : Family :=
  if "AC_".toList.isPrefixOf stem.toList then .ac
  else if "DC_".toList.isPrefixOf stem.toList then .dc
  else if "WPT_".toList.isPrefixOf stem.toList then .wpt
  else if "ACDP_".toList.isPrefixOf stem.toList then .acdp
  else .common

/-- A request or response of the exchange `stem`. -/
def Exchanges (name stem : String) : Prop := name = stem ++ "Req" ∨ name = stem ++ "Res"

theorem not_exchanges {name stem : String} (hreq : endsWith name "Req" = false)
    (hres : endsWith name "Res" = false) : ¬ Exchanges name stem := by
  rintro (rfl | rfl)
  · rw [endsWith_iff.mpr ⟨stem, rfl⟩] at hreq
    cases hreq
  · rw [endsWith_iff.mpr ⟨stem, rfl⟩] at hres
    cases hres

theorem req_ne_res (a b : String) : a ++ "Req" ≠ b ++ "Res" := by
  intro h
  have hlist : a.toList ++ ['R', 'e', 'q'] = b.toList ++ ['R', 'e', 's'] := by
    have htoList := congrArg String.toList h
    rw [String.toList_append, String.toList_append] at htoList
    exact htoList
  cases (List.append_inj' hlist rfl).2

theorem exchanges_req {a stem : String} (h : Exchanges (a ++ "Req") stem) : stem = a := by
  rcases h with h | h
  · exact ((String.append_left_inj "Req").mp h).symm
  · exact absurd h (req_ne_res a stem)

theorem exchanges_res {a stem : String} (h : Exchanges (a ++ "Res") stem) : stem = a := by
  rcases h with h | h
  · exact absurd h.symm (req_ne_res stem a)
  · exact ((String.append_left_inj "Res").mp h).symm

/-- The documents of a set, from its elements: those that are no messages are no exchange's. -/
theorem familyOf_document {Req Res Other : Type} [Element Req] [Element Res] [Element Other]
    {f : Family} (hreq : ∀ e : Req, familyOf (Element.name e) = f)
    (hres : ∀ e : Res, familyOf (Element.name e) = f)
    (hother : ∀ e : Other, endsWith (Element.name e) "Req" = false
      ∧ endsWith (Element.name e) "Res" = false)
    {doc : Iso20.Document Req Res Other} {stem : String} (h : Exchanges doc.name stem) :
    familyOf stem = f := by
  cases doc with
  | request e header rest =>
    rw [exchanges_req h]
    exact hreq e
  | response e header code rest =>
    rw [exchanges_res h]
    exact hres e
  | other e rest => exact absurd h (not_exchanges (hother e).1 (hother e).2)

theorem familyOf_common (e : Iso20.Messages.Req) : familyOf (Element.name e) = .common := by
  cases e with
  | powerDelivery processing progress =>
    exact (by decide +kernel : familyOf "PowerDelivery" = .common)
  | serviceSelection id => exact (by decide +kernel : familyOf "ServiceSelection" = .common)
  | sessionStop session => exact (by decide +kernel : familyOf "SessionStop" = .common)
  | _ => decide +kernel

/-- A -20 message is of the family its name says. -/
theorem family_eq_familyOf {m : Message} {stem : String} (hgen : m.generation = some .iso20)
    (h : Exchanges m.name stem) : m.family = familyOf stem := by
  -- one check over the elements of each schema; the DER schemas extend the AC one
  have hac : ∀ e : Iso20.Ac.Exchange, familyOf (Element.name e) = .ac := by
    intro e
    cases e <;> decide +kernel
  have hplain : ∀ e : Iso20.Ac.OtherElement, endsWith (Element.name e) "Req" = false
      ∧ endsWith (Element.name e) "Res" = false := by
    intro e
    cases e <;> decide +kernel
  have hder : ∀ e : Iso20.Ac.DerElement, endsWith (Element.name e) "Req" = false
      ∧ endsWith (Element.name e) "Res" = false := by
    intro e
    cases e <;> decide +kernel
  cases m with
  | appProtocolReq req => cases hgen
  | appProtocolRes res => cases hgen
  | iso2 doc => cases hgen
  -- the common messages are of one family, and no other element has their names
  | iso20 doc =>
    refine (familyOf_document familyOf_common ?_ ?_ h).symm
    · intro e
      cases e <;> decide +kernel
    · intro e
      cases e <;> decide +kernel
  | iso20Ac doc => exact (familyOf_document hac hac hplain h).symm
  | iso20Dc doc =>
    have hdc : ∀ e : Iso20.Dc.Exchange, familyOf (Element.name e) = .dc := by
      intro e
      cases e <;> decide +kernel
    refine (familyOf_document hdc hdc ?_ h).symm
    intro e
    cases e <;> decide +kernel
  | iso20Wpt doc =>
    have hwpt : ∀ e : Iso20.Wpt.Exchange, familyOf (Element.name e) = .wpt := by
      intro e
      cases e <;> decide +kernel
    exact (familyOf_document hwpt hwpt (fun e => nomatch e) h).symm
  | iso20Acdp doc =>
    have hacdp : ∀ e : Iso20.Acdp.Exchange, familyOf (Element.name e) = .acdp := by
      intro e
      cases e <;> decide +kernel
    exact (familyOf_document hacdp hacdp (fun e => nomatch e) h).symm
  -- what the DER schemas add are no messages
  | iso20AcDerIec doc =>
    refine (familyOf_document hac hac ?_ h).symm
    intro e
    cases e with
    | ac e => exact hplain e
    | der e => exact hder e
  | iso20AcDerSae doc =>
    refine (familyOf_document hac hac ?_ h).symm
    intro e
    cases e with
    | ac e => exact hplain e
    | der e => exact hder e
    | frequencyDroop => decide +kernel

/-! ## Answers

The names of request and answer share their stem, and in -20 the stem says which family they are
from. -/

/-- Within a generation, an answer is of the family of its request. -/
theorem family_of_answers {m r : Message} (hpairs : m.answers r.name = true)
    (hgen : m.generation = r.generation) : m.family = r.family := by
  obtain ⟨stem, hreq, hres⟩ := answers_iff.mp hpairs
  have hnone : ∀ {m : Message}, m.generation = none → m.family = .handshake := by
    intro m h
    cases m <;> first | rfl | cases h
  have hiso2 : ∀ {m : Message}, m.generation = some .iso2 → m.family = .iso2 := by
    intro m h
    cases m <;> first | rfl | cases h
  cases hm : m.generation with
  | none => rw [hnone hm, hnone (hgen.symm.trans hm)]
  | some protocol =>
    cases protocol with
    | din70121 => cases m <;> cases hm
    | iso2 => rw [hiso2 hm, hiso2 (hgen.symm.trans hm)]
    | iso20 =>
      rw [family_eq_familyOf hm (.inr hres),
        family_eq_familyOf (hgen.symm.trans hm) (.inl hreq)]

/-- The set of the AC messages, from the type of the payload. -/
theorem acSet_eq (m : Message) :
    m.acSet = match m.payloadType with
      | .part20Ac => some .ac
      | .part20AcDerIec => some .acDerIec
      | .part20AcDerSae => some .acDerSae
      | _ => none := by
  cases m <;> rfl

theorem acSet_eq_of_payloadType {m r : Message} (h : m.payloadType = r.payloadType) :
    m.acSet = r.acSet := by
  rw [acSet_eq, acSet_eq, h]

/-- The type of the payload, from family and set. -/
theorem payloadType_eq (m : Message) :
    m.payloadType = match m.family, m.acSet with
      | .ac, some .acDerIec => .part20AcDerIec
      | .ac, some .acDerSae => .part20AcDerSae
      | .ac, _ => .part20Ac
      | .common, _ => .part20Main
      | .dc, _ => .part20Dc
      | .wpt, _ => .part20Wpt
      | .acdp, _ => .part20Acdp
      | .handshake, _ | .iso2, _ => .exiEncodedV2gMessage := by
  cases m <;> rfl

theorem payloadType_eq_of_family {m r : Message} (hfamily : m.family = r.family)
    (hset : m.acSet = r.acSet) : m.payloadType = r.payloadType := by
  rw [payloadType_eq, payloadType_eq, hfamily, hset]

/-- **What pairing leaves open.** Of one generation, an answer that pairs with its request by name
is out of its message set exactly when it is out of the same one of the AC sets, or out of none of
them as the request is. -/
theorem payloadType_eq_iff {m r : Message} (hpairs : m.answers r.name = true)
    (hgen : m.generation = r.generation) :
    m.payloadType = r.payloadType ↔ m.acSet = r.acSet := by
  constructor
  · exact acSet_eq_of_payloadType
  · exact payloadType_eq_of_family (family_of_answers hpairs hgen)

end Iso15118.Message
