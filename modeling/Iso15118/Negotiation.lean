import Iso15118.Lib.FirstLeast
import Iso15118.Protocol
import Mathlib.Data.List.Induction
import Mathlib.Data.List.Perm.Subperm
import Mathlib.Data.Nat.Basic

/-!
# What an offer and its answer agree on

The vehicle numbers its offer from the top and gives each entry its number for a priority; the
station takes the entry with the smallest priority among those it can settle on and answers with
its number; the vehicle looks the number up in what it offered.

* **`Offers`** — what the offer made of a list of generations and a list of message sets consists
  of, whatever is in them and however often;
* **`negotiateWith_eq`** — of such an offer the station takes the first entry it can settle on;
* **`find?_schemaId`** — and the number it answers with is that entry's and no other's;
* **`negotiateWith_firstLeast`** — of any request at all, with numbers and priorities given twice,
  it takes the first of those with the least priority among the ones it can settle on.
-/

namespace Iso15118.AppProtocol

open Iso15118.Lib

/-! ## The entries

An entry names a generation by the one namespace it has, or a message set by the set's own.
Reading the namespace gives back what the entry was made for, so whether the station settles on
it is a question about that alone. -/

/-- The entry is for a generation that has one name for all its messages, or for a message set. -/
inductive Entry.For (e : Entry) : Protocol → Option Iso20Set → Prop where
  | protocol (p : Protocol) (hne : p ≠ .iso20) (n : UInt8) (h : e = .forProtocol p n n) :
      Entry.For e p none
  | set (set : Iso20Set) (n : UInt8) (h : e = .forIso20Set set n n) : Entry.For e .iso20 (some set)

variable {e : Entry} {p : Protocol} {set : Option Iso20Set}

theorem fromNamespace_set (set : Iso20Set) :
    Protocol.fromNamespace set.namespace = some .iso20
      ∧ Iso20Set.fromNamespace set.namespace = some set := by
  cases set <;> decide

theorem fromNamespace_protocol (hne : p ≠ .iso20) :
    Protocol.fromNamespace p.namespace = some p ∧ Iso20Set.fromNamespace p.namespace = none := by
  cases p with
  | iso20 => exact absurd rfl hne
  | din70121 => decide
  | iso2 => decide

theorem Entry.For.read (h : e.For p set) : e.protocol = some p ∧ e.iso20Set = set := by
  cases h with
  | protocol p hne n h =>
    rw [h]
    exact fromNamespace_protocol hne
  | set set n h =>
    rw [h]
    exact fromNamespace_set set

theorem Entry.For.version (h : e.For p set) :
    e.versionNumberMajor = p.version.1 ∧ e.versionNumberMinor = p.version.2 := by
  cases h with
  | protocol p hne n h =>
    rw [h]
    exact ⟨rfl, rfl⟩
  | set set n h =>
    rw [h]
    exact ⟨rfl, rfl⟩

/-- The station settles on an entry exactly when it speaks the generation and has the set. -/
theorem Entry.For.settles (h : e.For p set) (supported : Protocols) (iso20Sets : List Iso20Set) :
    e.settles supported iso20Sets
      = if p ∈ supported.entries ∧ ∀ s, set = some s → s ∈ iso20Sets then
          some ⟨p, set, e.schemaId, false⟩
        else none := by
  obtain ⟨hprotocol, hset⟩ := h.read
  obtain ⟨hmajor, hminor⟩ := h.version
  unfold Entry.settles
  rw [hprotocol, hset]
  dsimp only
  by_cases hp : p ∈ supported.entries
  · have hcontains : supported.contains p = true := decide_eq_true hp
    rw [if_neg (by simp [hcontains])]
    cases set with
    | none =>
      rw [if_neg (by simp), if_neg (by simp [hmajor]), if_pos ⟨hp, fun s hs => by cases hs⟩]
      simp [hminor]
    | some s =>
      by_cases hs : s ∈ iso20Sets
      · have hall : ∀ s', some s = some s' → s' ∈ iso20Sets := by
          intro s' heq
          cases heq
          exact hs
        rw [if_neg (by simp [hs]), if_neg (by simp [hmajor]), if_pos ⟨hp, hall⟩]
        simp [hminor]
      · rw [if_pos (by simp [hs]), if_neg fun hand => hs (hand.2 s rfl)]
  · have hcontains : supported.contains p = false := decide_eq_false hp
    rw [if_pos (by simp [hcontains]), if_neg fun hand => hp hand.1]

/-! ## The numbers

Numbers are given by place, so as long as the offer is no longer than the numbers reach they tell
its entries apart. `find?_schemaId` is what the vehicle relies on when it looks the answer up. -/

theorem schemaIdForIndex_le {i j : Nat} (h : i ≤ j) : schemaIdForIndex i ≤ schemaIdForIndex j := by
  unfold schemaIdForIndex
  rw [UInt8.le_iff_toNat_le]
  split
  · next hi =>
    split
    · next hj =>
      rw [UInt8.toNat_ofNat_of_lt' (by show _ < 256; omega),
        UInt8.toNat_ofNat_of_lt' (by show _ < 256; omega)]
      omega
    · rw [UInt8.toNat_ofNat_of_lt' (by show _ < 256; omega)]
      exact hi
  · refine Nat.le_of_eq ?_
    rw [if_neg (by omega)]

/-- Up to the number of entries an offer can have, the numbers are different ones. -/
theorem schemaIdForIndex_inj {i j : Nat} (hi : i < maxAppProtocols) (hj : j < maxAppProtocols)
    (h : schemaIdForIndex i = schemaIdForIndex j) : i = j := by
  simp only [maxAppProtocols] at hi hj
  unfold schemaIdForIndex at h
  rw [if_pos (by omega), if_pos (by omega)] at h
  have hnat := congrArg UInt8.toNat h
  rw [UInt8.toNat_ofNat_of_lt' (by show _ < 256; omega),
    UInt8.toNat_ofNat_of_lt' (by show _ < 256; omega)] at hnat
  omega

/-- Every entry has its place for a number and for a priority. -/
def Numbered (entries : List Entry) : Prop :=
  ∀ i (h : i < entries.length),
    (entries.get ⟨i, h⟩).schemaId = schemaIdForIndex i
      ∧ (entries.get ⟨i, h⟩).priority = schemaIdForIndex i

variable {entries : List Entry}

theorem Numbered.concat (h : Numbered entries) {e : Entry}
    (hid : e.schemaId = schemaIdForIndex entries.length)
    (hpriority : e.priority = schemaIdForIndex entries.length) : Numbered (entries ++ [e]) := by
  intro i hi
  rw [List.length_append, List.length_singleton] at hi
  rw [List.get_eq_getElem]
  by_cases hlt : i < entries.length
  · rw [List.getElem_append_left hlt]
    exact h i hlt
  · have heq : i = entries.length := by omega
    subst heq
    rw [List.getElem_concat_length rfl]
    exact ⟨hid, hpriority⟩

theorem Numbered.pairwise (h : Numbered entries) :
    entries.Pairwise fun a b => a.priority ≤ b.priority := by
  rw [List.pairwise_iff_getElem]
  intro i j hi hj hij
  rw [show entries[i].priority = _ from (h i hi).2, show entries[j].priority = _ from (h j hj).2]
  exact schemaIdForIndex_le (Nat.le_of_lt hij)

/-- **A number is one entry's.** -/
theorem find?_schemaId (h : Numbered entries) (hlen : entries.length ≤ maxAppProtocols)
    (he : e ∈ entries) : entries.find? (·.schemaId = e.schemaId) = some e := by
  obtain ⟨i, hi, rfl⟩ := List.mem_iff_getElem.mp he
  cases hfind : entries.find? (·.schemaId = entries[i].schemaId) with
  | none =>
    have hnone := List.find?_eq_none.mp hfind entries[i] (List.getElem_mem hi)
    exact absurd (decide_eq_true rfl) hnone
  | some e' =>
    have hid : e'.schemaId = entries[i].schemaId := by simpa using List.find?_some hfind
    obtain ⟨j, hj, rfl⟩ := List.mem_iff_getElem.mp (List.mem_of_find?_eq_some hfind)
    rw [show entries[j].schemaId = _ from (h j hj).1,
      show entries[i].schemaId = _ from (h i hi).1] at hid
    cases schemaIdForIndex_inj (Nat.lt_of_lt_of_le hj hlen) (Nat.lt_of_lt_of_le hi hlen) hid
    rfl

/-! ## The station's choice

The loop keeps the better of what it holds and what it looks at. In an offer made from the top,
priorities only grow, and whatever it holds first stays. -/

theorem foldl_better_some (supported : Protocols) (iso20Sets : List Iso20Set) {p : UInt8}
    {n : Negotiated} (h : ∀ e ∈ entries, p ≤ e.priority) :
    entries.foldl (better supported iso20Sets) (some (p, n)) = some (p, n) := by
  induction entries with
  | nil => rfl
  | cons e rest ih =>
    have hbetter : better supported iso20Sets (some (p, n)) e = some (p, n) := by
      unfold better
      split
      · rfl
      · exact if_pos (h e (List.mem_cons_self ..))
    rw [List.foldl_cons, hbetter]
    exact ih fun e' he' => h e' (List.mem_cons_of_mem _ he')

/-- **Of an offer in order of preference, the first entry that settles.** Induction on the offer:
once an entry has settled, the ones behind it have no smaller priority. -/
theorem negotiateWith_eq (supported : Protocols) (iso20Sets : List Iso20Set)
    (h : entries.Pairwise fun a b => a.priority ≤ b.priority) :
    Req.negotiateWith ⟨entries⟩ supported iso20Sets
      = entries.findSome? (·.settles supported iso20Sets) := by
  unfold Req.negotiateWith
  dsimp only
  induction entries with
  | nil => rfl
  | cons e rest ih =>
    obtain ⟨hfirst, hrest⟩ := List.pairwise_cons.mp h
    cases hsettles : e.settles supported iso20Sets with
    | none =>
      have hbetter : better supported iso20Sets none e = none := by
        simp only [better, hsettles]
      rw [List.foldl_cons, hbetter, List.findSome?_cons_of_isNone (by simp [hsettles])]
      exact ih hrest
    | some n =>
      have hbetter : better supported iso20Sets none e = some (e.priority, n) := by
        simp only [better, hsettles]
      rw [List.foldl_cons, hbetter, foldl_better_some supported iso20Sets hfirst,
        List.findSome?_cons_of_isSome (by simp [hsettles]), hsettles]
      rfl

/-! ## The offer

Two loops, over the generations and over the message sets, both of which pass over what they have
seen. They come to one entry for each choice there is, in the order in which the choices first
occur. -/

/-- What a vehicle with these message sets has to say for a generation: one entry, or one for each
of the sets. -/
def Choice (iso20Sets : List Iso20Set) : Protocol → Option Iso20Set → Prop
  | .iso20, set => ∃ s ∈ iso20Sets, set = some s
  | .din70121, set | .iso2, set => set = none

/-- The entries are one for each of the choices `C`, with their places for numbers. -/
structure Offers (C : Protocol → Option Iso20Set → Prop) (entries : List Entry) : Prop where
  numbered : Numbered entries
  distinct : (entries.map (·.protocolNamespace)).Nodup
  each : ∀ e ∈ entries, ∃ p set, e.For p set ∧ C p set
  all : ∀ p set, C p set → ∃ e ∈ entries, e.For p set

variable {C C' : Protocol → Option Iso20Set → Prop} {iso20Sets : List Iso20Set}

theorem Offers.congr (h : Offers C entries) (hC : ∀ p set, C p set ↔ C' p set) :
    Offers C' entries where
  numbered := h.numbered
  distinct := h.distinct
  each e he := by
    obtain ⟨p, set, hfor, hc⟩ := h.each e he
    exact ⟨p, set, hfor, (hC p set).mp hc⟩
  all p set hc := h.all p set ((hC p set).mpr hc)

/-- One more entry offers one more candidate, with the ids and priorities still all different. -/
theorem Offers.concat (h : Offers C entries) (hfor : e.For p set) (hnew : ¬ C p set)
    (hid : e.schemaId = schemaIdForIndex entries.length)
    (hpriority : e.priority = schemaIdForIndex entries.length) :
    Offers (fun p' set' => C p' set' ∨ (p' = p ∧ set' = set)) (entries ++ [e]) where
  numbered := h.numbered.concat hid hpriority
  distinct := by
    rw [List.map_append, List.map_singleton]
    refine List.nodup_append.mpr ⟨h.distinct, List.nodup_singleton _, fun ns hns ns' hns' heq => ?_⟩
    obtain ⟨e', he', rfl⟩ := List.mem_map.mp hns
    rw [List.mem_singleton.mp hns'] at heq
    -- an entry under the same namespace would be for the same choice
    obtain ⟨p', set', hfor', hc⟩ := h.each e' he'
    have hsame : e'.protocol = e.protocol ∧ e'.iso20Set = e.iso20Set := by
      unfold Entry.protocol Entry.iso20Set
      rw [heq]
      exact ⟨rfl, rfl⟩
    rw [hfor'.read.1, hfor'.read.2, hfor.read.1, hfor.read.2] at hsame
    obtain ⟨hp, rfl⟩ := hsame
    cases hp
    exact hnew hc
  each e' he' := by
    rcases List.mem_append.mp he' with he' | he'
    · obtain ⟨p', set', hfor', hc⟩ := h.each e' he'
      exact ⟨p', set', hfor', .inl hc⟩
    · rw [List.mem_singleton.mp he']
      exact ⟨p, set, hfor, .inr ⟨rfl, rfl⟩⟩
  all p' set' hc := by
    rcases hc with hc | ⟨rfl, rfl⟩
    · obtain ⟨e', he', hfor'⟩ := h.all p' set' hc
      exact ⟨e', List.mem_append_left _ he', hfor'⟩
    · exact ⟨e, List.mem_append_right _ (List.mem_singleton_self e), hfor⟩

/-- The inner loop: one entry for each set that has not been seen. Induction on the sets. -/
theorem offers_offerSets (h : Offers C entries) (seen : List Iso20Set)
    (hseen : ∀ s, C .iso20 (some s) ↔ s ∈ seen) :
    Offers (fun p set => C p set ∨ (p = .iso20 ∧ ∃ s ∈ iso20Sets, set = some s))
      (offerSets entries seen iso20Sets) := by
  induction iso20Sets generalizing C entries seen with
  | nil => exact h.congr fun p set => by simp
  | cons s rest ih =>
    unfold offerSets
    split
    · next hmem =>
      -- the set was offered before, under another entry
      have hseen' : ∀ s', C .iso20 (some s') ↔ s' ∈ seen ++ [s] := by
        intro s'
        rw [hseen, List.mem_append, List.mem_singleton]
        constructor
        · exact .inl
        · rintro (h | rfl)
          · exact h
          · exact hmem
      refine (ih h _ hseen').congr fun p set => ?_
      constructor
      · rintro (hc | ⟨rfl, s', hs', rfl⟩)
        · exact .inl hc
        · exact .inr ⟨rfl, s', List.mem_cons_of_mem _ hs', rfl⟩
      · rintro (hc | ⟨rfl, s', hs', rfl⟩)
        · exact .inl hc
        · rcases List.mem_cons.mp hs' with rfl | hs'
          · exact .inl ((hseen s').mpr hmem)
          · exact .inr ⟨rfl, s', hs', rfl⟩
    · next hnot =>
      -- a new set is offered under the next free schema id
      have hadded := h.concat (.set s (schemaIdForIndex entries.length) rfl)
        (fun hc => hnot ((hseen s).mp hc)) rfl rfl
      refine (ih hadded (seen ++ [s]) fun s' => ?_).congr fun p set => ?_
      · rw [List.mem_append, List.mem_singleton, hseen]
        simp
      · constructor
        · rintro ((hc | ⟨rfl, rfl⟩) | ⟨rfl, s', hs', rfl⟩)
          · exact .inl hc
          · exact .inr ⟨rfl, s, List.mem_cons_self .., rfl⟩
          · exact .inr ⟨rfl, s', List.mem_cons_of_mem _ hs', rfl⟩
        · rintro (hc | ⟨rfl, s', hs', rfl⟩)
          · exact .inl (.inl hc)
          · rcases List.mem_cons.mp hs' with rfl | hs'
            · exact .inl (.inr ⟨rfl, rfl⟩)
            · exact .inr ⟨rfl, s', hs', rfl⟩

/-- One turn of the outer loop, for a generation that has not been offered yet. -/
theorem offers_offer (iso20Sets : List Iso20Set) (h : Offers C entries) (hnew : ∀ set, ¬ C p set) :
    Offers (fun p' set => C p' set ∨ (p' = p ∧ Choice iso20Sets p set))
      (offer iso20Sets entries p) := by
  unfold offer
  split
  · next hp =>
    subst hp
    refine offers_offerSets h [] fun s => ?_
    exact iff_of_false (hnew (some s)) List.not_mem_nil
  · next hp =>
    have hadded := h.concat (.protocol p hp (schemaIdForIndex entries.length) rfl) (hnew none) rfl
      rfl
    refine hadded.congr fun p' set => or_congr Iff.rfl (and_congr_right fun _ => ?_)
    cases p with
    | iso20 => exact absurd rfl hp
    | din70121 => exact Iff.rfl
    | iso2 => exact Iff.rfl

/-- Each protocol adds its own candidates to the offer, with ids that go on where the last ones
ended. -/
theorem offers_foldl (iso20Sets : List Iso20Set) {ps : List Protocol} (h : Offers C entries)
    (hnodup : ps.Nodup) (hnew : ∀ p ∈ ps, ∀ set, ¬ C p set) :
    Offers (fun p set => C p set ∨ (p ∈ ps ∧ Choice iso20Sets p set))
      (ps.foldl (offer iso20Sets) entries) := by
  induction ps generalizing C entries with
  | nil => exact h.congr fun p set => by simp
  | cons p rest ih =>
    obtain ⟨hnot, hrest⟩ := List.nodup_cons.mp hnodup
    have hadded := offers_offer iso20Sets h (hnew p (List.mem_cons_self ..))
    rw [List.foldl_cons]
    refine (ih hadded hrest fun p' hp' set hc => ?_).congr fun p' set => ?_
    · rcases hc with hc | ⟨rfl, -⟩
      · exact hnew p' (List.mem_cons_of_mem _ hp') set hc
      · exact hnot hp'
    · constructor
      · rintro ((hc | ⟨rfl, hc⟩) | ⟨hp', hc⟩)
        · exact .inl hc
        · exact .inr ⟨List.mem_cons_self .., hc⟩
        · exact .inr ⟨List.mem_cons_of_mem _ hp', hc⟩
      · rintro (hc | ⟨hp', hc⟩)
        · exact .inl (.inl hc)
        · rcases List.mem_cons.mp hp' with rfl | hp'
          · exact .inl (.inr ⟨rfl, hc⟩)
          · exact .inr ⟨hp', hc⟩

/-- The offer never has to be cut short: there are eight namespaces in all. -/
theorem Offers.length_le (h : Offers C entries) : entries.length ≤ maxAppProtocols := by
  let namespaces :=
    [Protocol.din70121.namespace, Protocol.iso2.namespace] ++ Iso20Set.all.map (·.namespace)
  have hsub : entries.map (·.protocolNamespace) ⊆ namespaces := by
    intro ns hns
    obtain ⟨e, he, rfl⟩ := List.mem_map.mp hns
    obtain ⟨p, set, hfor, -⟩ := h.each e he
    cases hfor with
    | protocol p hne n hentry =>
      rw [hentry]
      cases p with
      | iso20 => exact absurd rfl hne
      | din70121 => exact List.mem_append_left _ (List.mem_cons_self ..)
      | iso2 => exact List.mem_append_left _ (List.mem_cons_of_mem _ (List.mem_cons_self ..))
    | set set n hentry =>
      rw [hentry]
      refine List.mem_append_right _ (List.mem_map.mpr ⟨set, ?_, rfl⟩)
      cases set <;> decide
  have hlen := (h.distinct.subperm hsub).length_le
  rw [List.length_map] at hlen
  exact Nat.le_trans hlen (by decide)

/-- **What is offered.** One entry for each choice the generations and the sets leave. -/
theorem offers_advertisingWith (protocols : Protocols) (iso20Sets : List Iso20Set) :
    Offers (fun p set => p ∈ protocols.entries ∧ Choice iso20Sets p set)
      (Req.advertisingWith protocols iso20Sets).appProtocols := by
  have hnone : Offers (fun _ _ => False) [] := by
    refine ⟨fun i hi => absurd hi (Nat.not_lt_zero i), List.nodup_nil, ?_, ?_⟩
    · intro e he
      cases he
    · intro p set hc
      cases hc
  have hall := offers_foldl iso20Sets hnone protocols.nodup fun _ _ _ hc => hc
  unfold Req.advertisingWith
  rw [List.take_of_length_le hall.length_le]
  exact hall.congr fun p set => by simp

/-! ## The agreement

The two halves put together: the station's choice is an entry of the offer, and its number is no
other entry's. -/

section Agreement

variable (protocols supported : Protocols) (offered iso20Sets : List Iso20Set)

/-- The station settles on something exactly when the two have a choice in common. -/
theorem isSome_negotiateWith :
    ((Req.advertisingWith protocols offered).negotiateWith supported iso20Sets).isSome = true
      ↔ ∃ p set, p ∈ protocols.entries ∧ p ∈ supported.entries ∧ Choice offered p set
          ∧ ∀ s, set = some s → s ∈ iso20Sets := by
  have hoffers := offers_advertisingWith protocols offered
  rw [show Req.advertisingWith protocols offered
    = ⟨(Req.advertisingWith protocols offered).appProtocols⟩ from rfl,
    negotiateWith_eq supported iso20Sets hoffers.numbered.pairwise, List.findSome?_isSome_iff]
  constructor
  · rintro ⟨e, he, hsettles⟩
    obtain ⟨p, set, hfor, hp, hchoice⟩ := hoffers.each e he
    rw [hfor.settles] at hsettles
    split at hsettles
    · next hand => exact ⟨p, set, hp, hand.1, hchoice, hand.2⟩
    · cases hsettles
  · rintro ⟨p, set, hp, hsupported, hchoice, hsets⟩
    obtain ⟨e, he, hfor⟩ := hoffers.all p set ⟨hp, hchoice⟩
    refine ⟨e, he, ?_⟩
    rw [hfor.settles, if_pos ⟨hsupported, hsets⟩]
    rfl

/-- **The number the station answers with names what it settled on.** -/
theorem find?_of_negotiateWith {a : Negotiated}
    (h : (Req.advertisingWith protocols offered).negotiateWith supported iso20Sets = some a) :
    a.protocol ∈ supported.entries
      ∧ ∃ e, (Req.advertisingWith protocols offered).appProtocols.find? (·.schemaId = a.schemaId)
            = some e
          ∧ e.protocol = some a.protocol ∧ e.iso20Set = a.iso20Set := by
  have hoffers := offers_advertisingWith protocols offered
  rw [show Req.advertisingWith protocols offered
    = ⟨(Req.advertisingWith protocols offered).appProtocols⟩ from rfl,
    negotiateWith_eq supported iso20Sets hoffers.numbered.pairwise] at h
  obtain ⟨e, he, hsettles⟩ := List.exists_of_findSome?_eq_some h
  obtain ⟨p, set, hfor, -⟩ := hoffers.each e he
  rw [hfor.settles] at hsettles
  split at hsettles
  · next hand =>
    cases hsettles
    exact ⟨hand.1, e, find?_schemaId hoffers.numbered hoffers.length_le he, hfor.read⟩
  · cases hsettles

end Agreement

/-! ## Any request

The station does not know who made the request it answers, so nothing is asked of its entries
here: numbers and priorities may repeat. What the loop holds on to is then the first of the
least, by induction on the entries looked at. -/

section Request

variable (supported : Protocols) (iso20Sets : List Iso20Set)

/-- The entry names a generation in the supported set, in its major version, and the message set it
names, if it names one, is permitted. -/
structure Entry.Eligible (e : Entry) (p : Protocol) : Prop where
  known : e.protocol = some p
  supported : p ∈ supported.entries
  major : e.versionNumberMajor = p.version.1
  permitted : ∀ set, e.iso20Set = some set → set ∈ iso20Sets

/-- What the entry is answered with, as one of a generation. -/
def Entry.answered (e : Entry) (p : Protocol) : Negotiated where
  protocol := p
  iso20Set := e.iso20Set
  schemaId := e.schemaId
  minorDeviation := decide (e.versionNumberMinor ≠ p.version.2)

/-- An entry settles the question exactly when it is eligible, with the answer that names it. -/
theorem Entry.settles_eq_some {n : Negotiated} :
    e.settles supported iso20Sets = some n
      ↔ ∃ p, e.Eligible supported iso20Sets p ∧ n = e.answered p := by
  unfold Entry.settles
  cases hprotocol : e.protocol with
  | none =>
    refine iff_of_false nofun ?_
    rintro ⟨p, heligible, -⟩
    exact absurd (hprotocol.symm.trans heligible.known) nofun
  | some q =>
    dsimp only
    constructor
    · intro h
      split_ifs at h with hsupported hset hmajor
      cases h
      refine ⟨q, ⟨hprotocol, ?_, not_not.mp hmajor, fun set hnamed => ?_⟩, rfl⟩
      · simpa [Protocols.contains] using hsupported
      · by_contra hnot
        exact hset (by simp [hnamed, hnot])
    · rintro ⟨p, ⟨hknown, hsupported, hmajor, hpermitted⟩, rfl⟩
      obtain rfl : q = p := Option.some.inj (hprotocol.symm.trans hknown)
      have hset : ¬ e.iso20Set.any (fun set => set ∉ iso20Sets) = true := by
        cases hnamed : e.iso20Set with
        | none => simp
        | some set => simp [hpermitted set hnamed]
      rw [if_neg (by simp [Protocols.contains, hsupported]), if_neg hset, if_neg (by simp [hmajor])]
      rfl

/-- The station can settle on the entry. -/
def Entry.Fits (e : Entry) : Prop := ∃ p, e.Eligible supported iso20Sets p

def Entry.rank (e : Entry) : Nat := e.priority.toNat

/-- The pair the pass holds on to for a winner. -/
def Entry.held (e : Entry) : Option (UInt8 × Negotiated) :=
  (e.settles supported iso20Sets).map fun n => (e.priority, n)

theorem Entry.fits_iff {e : Entry} :
    e.Fits supported iso20Sets ↔ ∃ n, e.settles supported iso20Sets = some n := by
  simp only [settles_eq_some]
  constructor
  · rintro ⟨p, heligible⟩
    exact ⟨_, p, heligible, rfl⟩
  · rintro ⟨-, p, heligible, -⟩
    exact ⟨p, heligible⟩

/-- The pass over the entries holds on to the winner's priority and answer. -/
theorem winner_foldl (entries : List Entry) :
    ∃ best, Winner (Entry.Fits supported iso20Sets) Entry.rank entries best
      ∧ entries.foldl (better supported iso20Sets) none
        = best.bind (Entry.held supported iso20Sets) := by
  -- induction on the entries that have been looked at, the last one first
  induction entries using List.reverseRecOn with
  | nil => exact ⟨none, List.forall_mem_nil _, rfl⟩
  | append_singleton entries e ih =>
    obtain ⟨best, hwinner, hfold⟩ := ih
    rw [List.foldl_append, List.foldl_cons, List.foldl_nil, hfold]
    cases hsettles : e.settles supported iso20Sets with
    -- an entry that does not settle changes nothing
    | none =>
      have hnot : ¬ e.Fits supported iso20Sets := by
        rw [Entry.fits_iff, hsettles]
        exact nofun
      refine ⟨best, hwinner.concat (fun _ => rfl) (fun he => absurd he hnot)
        fun _ he => absurd he hnot, ?_⟩
      unfold better
      rw [hsettles]
    | some n =>
      have hheld : e.held supported iso20Sets = some (e.priority, n) := by
        unfold Entry.held
        rw [hsettles]
        rfl
      have hfits : e.Fits supported iso20Sets :=
        (Entry.fits_iff supported iso20Sets).mpr ⟨n, hsettles⟩
      cases best with
      -- the first one that does is the winner
      | none =>
        refine ⟨some e, hwinner.concat (fun hnot => absurd hfits hnot) (fun _ _ => rfl) nofun, ?_⟩
        rw [Option.bind_some, hheld, Option.bind_none]
        unfold better
        rw [hsettles]
      -- a later one wins with a smaller priority only
      | some a =>
        refine ⟨if a.rank ≤ e.rank then some a else some e,
          hwinner.concat (fun hnot => absurd hfits hnot) nofun ?_, ?_⟩
        · intro a' _ ha
          cases ha
          rfl
        · obtain ⟨i, -, hafits, -⟩ := hwinner
          obtain ⟨m, hm⟩ := (Entry.fits_iff supported iso20Sets).mp hafits
          have haheld : a.held supported iso20Sets = some (a.priority, m) := by
            unfold Entry.held
            rw [hm]
            rfl
          rw [Option.bind_some, haheld]
          unfold better
          rw [hsettles]
          by_cases hle : a.rank ≤ e.rank
          · rw [if_pos hle, Option.bind_some, haheld]
            exact if_pos (UInt8.le_iff_toNat_le.mpr hle)
          · rw [if_neg hle, Option.bind_some, hheld]
            exact if_neg fun hge => hle (UInt8.le_iff_toNat_le.mp hge)

/-- **The vehicle's first choice.** A request is answered unless the station can settle on none of
its entries, and then as the first entry of those with the least priority among the ones it can
settle on, told apart by their places alone. -/
theorem negotiateWith_firstLeast (req : Req) :
    (req.negotiateWith supported iso20Sets = none
        ↔ ∀ e ∈ req.appProtocols, ∀ p, ¬ e.Eligible supported iso20Sets p)
      ∧ ∀ n, req.negotiateWith supported iso20Sets = some n
        ↔ ∃ e p, FirstLeast (Entry.Fits supported iso20Sets) Entry.rank req.appProtocols e
          ∧ e.Eligible supported iso20Sets p ∧ n = e.answered p := by
  obtain ⟨best, hwinner, hfold⟩ := winner_foldl supported iso20Sets req.appProtocols
  unfold Req.negotiateWith
  rw [hfold]
  cases best with
  -- no entry settles the question
  | none =>
    refine ⟨iff_of_true rfl fun e he p hp => hwinner e he ⟨p, hp⟩, fun n => ?_⟩
    refine iff_of_false nofun ?_
    rintro ⟨e, p, ⟨i, hi, -⟩, heligible, -⟩
    exact hwinner e (List.mem_of_getElem? hi) ⟨p, heligible⟩
  -- one does, with the least rank, and the first of those
  | some a =>
    have hleast : FirstLeast (Entry.Fits supported iso20Sets) Entry.rank req.appProtocols a :=
      hwinner
    obtain ⟨i, hi, ⟨p, heligible⟩, -⟩ := hwinner
    have hsettles : a.settles supported iso20Sets = some (a.answered p) :=
      (Entry.settles_eq_some supported iso20Sets).mpr ⟨p, heligible, rfl⟩
    have hanswer : ((some a).bind (Entry.held supported iso20Sets)).map (·.2)
        = some (a.answered p) := by
      rw [Option.bind_some]
      unfold Entry.held
      rw [hsettles]
      rfl
    rw [hanswer]
    refine ⟨iff_of_false nofun fun h => h a (List.mem_of_getElem? hi) p heligible, fun n => ?_⟩
    constructor
    · intro h
      cases h
      exact ⟨a, p, hleast, heligible, rfl⟩
    · rintro ⟨e, q, hleast', heligible', rfl⟩
      cases hleast.unique hleast'
      cases heligible.known.symm.trans heligible'.known
      rfl

end Request

end Iso15118.AppProtocol
