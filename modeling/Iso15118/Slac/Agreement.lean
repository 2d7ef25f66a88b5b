import Iso15118.Slac.Network

/-!
# The vehicle and the station that match agree

Several stations hear the same run, measure it and report it, and frames of it keep arriving long
after. Still only one of them can hand over its key, and the vehicle matches with no other: a
vehicle that is started once names one station in all it sends, a station grants its key only on a
request that names it, and the key the vehicle accepts is one its station granted.

* **`Network.named_of_matched`** — a station that matches is the one the vehicle's request names;
* **`Network.granted_of_matched`** — the key the vehicle accepts was granted to it;
* **`Network.agreement`** — the two together, over every interleaving.
-/

namespace Iso15118.Slac

open Iso15118.Lib Iso15118.Session

/-! ## What the vehicle says

A vehicle that is started once sends the frames of one script, so that there is one station whose
key it asks for. -/

/-- Of the frames of a script only the request is about a key, and it names the station picked. -/
theorem Ev.mem_script {c : EvConfig} {mac : MacAddr} {id : StationId}
    {entry : MacAddr × Message} (h : entry ∈ Ev.script c mac id) :
    (entry.2.mmtype ≠ .slacMatchReq ∧ entry.2.mmtype ≠ .slacMatchCnf)
      ∨ entry.2 = .matchReq ⟨c.id, c.mac, id, mac, c.runId⟩ := by
  unfold Ev.script at h
  rcases List.mem_append.mp h with hburst | hchoice
  · left
    rcases List.mem_append.mp hburst with hstart | hsounds
    · rcases List.mem_append.mp hstart with hreq | hstarts
      · rw [List.mem_singleton.mp hreq]
        simp [Message.mmtype]
      · rw [(List.mem_replicate.mp hstarts).2]
        simp [Message.mmtype]
    · obtain ⟨i, -, rfl⟩ := List.mem_map.mp hsounds
      simp [Ev.scriptSound, Message.mmtype]
  · rcases List.mem_cons.mp hchoice with rfl | hlast
    · left
      simp [Message.mmtype]
    · right
      rw [List.mem_singleton.mp hlast]

/-! ## What a station says

A station sends confirmations for its own key, and sends one only when it has matched. -/

namespace Evse

/-- No frame of a station is a request for a key. -/
theorem not_matchReq_of_queued {s : Evse} {c : Call} {o : Outgoing}
    (h : o ∈ queued (taken call s c)) {source : MacAddr} {req : SlacMatchReq} :
    receive o.frame ≠ some (source, .matchReq req) := by
  intro hr
  cases puts_call s c with
  | failure hq he =>
    rw [hq] at h
    cases h
  | confirmation ho hq he => cases (hq o h).mmtype_of_receive hr
  | report hc hrun hm hq he => cases (hq o h).2.mmtype_of_receive hr
  | key hcall hreq hb hmac hid hs hq he =>
    cases (hq o h).mmtype_of_receive hr

/-- A confirmation is the station's own, and the station matched when it queued it. -/
theorem matched_of_queued {s : Evse} {c : Call} {o : Outgoing}
    (h : o ∈ queued (taken call s c)) {source : MacAddr} {cnf : SlacMatchCnf}
    (hr : receive o.frame = some (source, .matchCnf cnf)) :
    cnf.evseMac = s.config.mac ∧ cnf.evseId = s.config.id
      ∧ .matched cnf.pevId cnf.pevMac cnf.nmk ∈ emitted (taken call s c) := by
  cases puts_call s c with
  | failure hq he =>
    rw [hq] at h
    cases h
  | confirmation ho hq he => cases (hq o h).mmtype_of_receive hr
  | report hc hrun hm hq he => cases (hq o h).2.mmtype_of_receive hr
  | @key now raw source' req run hcall hreq hb hmac hid hs hq he =>
    have hreceive := (hq o h).receive_eq (m := .matchCnf (s.matchCnf run req)) (by simp)
    rw [hr] at hreceive
    cases hreceive
    refine ⟨rfl, rfl, ?_⟩
    rw [he]
    exact List.mem_singleton_self _

/-- A station matches on a request for its own key. -/
theorem named_of_matched {s : Evse} {c : Call} {pevId : StationId} {pevMac : MacAddr} {nmk : Nmk}
    (h : .matched pevId pevMac nmk ∈ emitted (taken call s c)) :
    ∃ now raw source req, c = .frame now raw ∧ receive raw = some (source, .matchReq req)
      ∧ req.evseMac = s.config.mac ∧ req.evseId = s.config.id := by
  cases puts_call s c with
  | failure hq he =>
    obtain ⟨reason, heq⟩ := he _ h
    cases heq
  | confirmation ho hq he => cases he _ h
  | report hc hrun hm hq he => rcases he _ h with heq | heq <;> cases heq
  | @key now raw source req run hcall hreq hb hmac hid hs hq he =>
    exact ⟨now, raw, source, req, hcall, hreq, hmac, hid⟩

end Evse

namespace Network

variable {ι : Type} [DecidableEq ι] {config : EvConfig} {stations : ι → EvseConfig}
variable {acts : List (Act ι)}

/-! ## The parties of a run

What each party does in the network it could do alone with the same calls, so what is known of a
single engine can be used here. -/

section Parties

variable {t : Transition (Network ι) (Act ι)} (ht : t ∈ history config stations acts)

include ht

/-- What the vehicle does among its neighbours, it does by itself, from a fresh start. -/
theorem vehicle_taken {p : Transition Ev Ev.Call} (hp : vehicleTurn t = some p) :
    p ∈ Ev.history config (acts.filterMap Act.ofVehicle) ∧ p = taken Ev.call p.before p.call
      ∧ p.before.config = config := by
  have hmem : p ∈ Ev.history config (acts.filterMap Act.ofVehicle) :=
    vehicle_party.mem_trace ht hp
  refine ⟨hmem, eq_taken_of_mem_trace hmem, ?_⟩
  exact before_of_invariant (I := fun s : Ev => s.config = config)
    (fun s c hs => (Ev.call_config s c).trans hs) rfl p hmem

theorem station_taken {i : ι} {p : Transition Evse Evse.Call} (hp : stationTurn i t = some p) :
    p = taken Evse.call p.before p.call ∧ p.before.config = stations i := by
  have hmem : p ∈ Evse.history (stations i) (acts.filterMap (Act.ofStation i)) :=
    (station_party i).mem_trace ht hp
  refine ⟨eq_taken_of_mem_trace hmem, ?_⟩
  exact before_of_invariant (I := fun s : Evse => s.config = stations i)
    (fun s c hs => (Evse.follows_call s c).config.trans hs) rfl p hmem

end Parties

/-- All a vehicle that is started once sends in a run is from the script of one station. -/
theorem vehicle_scripted (config : EvConfig) (stations : ι → EvseConfig) {acts : List (Act ι)}
    (honce : (acts.filterMap Act.ofVehicle).countP Ev.Call.starts ≤ 1) :
    ∃ mac id, ∀ t ∈ history config stations acts, ∀ o ∈ vehicleFrames t,
      ∃ entry ∈ Ev.script config mac id, receive o.frame = some (config.mac, entry.2) := by
  obtain ⟨mac, id, hsaid⟩ := Ev.said_of_once config honce
  refine ⟨mac, id, fun t ht o ho => ?_⟩
  obtain ⟨p, hp, hqueued⟩ := mem_vehicleFrames.mp ho
  have hframes : o ∈ Ev.frames (Ev.new config) (acts.filterMap Act.ofVehicle) := by
    unfold Ev.frames
    rw [← flatMap_trace]
    exact List.mem_flatMap.mpr ⟨p, (vehicle_taken ht hp).1, hqueued⟩
  obtain ⟨entry, hentry, heq⟩ := hsaid o hframes
  exact ⟨entry, hentry, congrArg Prod.snd heq⟩

/-! ## Who can match

A match of the vehicle is traced back: the confirmation it heard was sent by a station, for a
request that the vehicle has sent, and that names this station. -/

/-- The frames delivered at a transition, traced back to where they were queued. -/
theorem sent_of_mem (hmedium : Unforged config stations acts)
    {before after : List (Transition (Network ι) (Act ι))} {t : Transition (Network ι) (Act ι)}
    (hsplit : history config stations acts = before ++ t :: after) {raw : List UInt8}
    (hraw : t.call.heard = some raw) :
    ∃ e ∈ before, e ∈ history config stations acts
      ∧ ∃ o, o.frame = raw ∧ (o ∈ vehicleFrames e ∨ ∃ i, o ∈ stationFrames i e) := by
  obtain ⟨o, ⟨e, he, ho⟩, hframe⟩ := sent_of_heard hmedium before t after hsplit raw hraw
  have hmem : e ∈ history config stations acts := by
    rw [hsplit]
    exact List.mem_append_left _ he
  exact ⟨e, he, hmem, o, hframe, ho⟩

/-- A station matches on a request that names it, and the vehicle sends no request that names
another station than `mac`, `id`. -/
theorem named_of_matched (hmedium : Unforged config stations acts) {mac : MacAddr}
    {id : StationId}
    (hscript : ∀ t ∈ history config stations acts, ∀ o ∈ vehicleFrames t,
      ∃ entry ∈ Ev.script config mac id, receive o.frame = some (config.mac, entry.2))
    {t : Transition (Network ι) (Act ι)} (ht : t ∈ history config stations acts) {j : ι}
    {pevId : StationId} {pevMac : MacAddr} {nmk : Nmk}
    (h : .matched pevId pevMac nmk ∈ stationEvents j t) :
    (stations j).mac = mac ∧ (stations j).id = id := by
  obtain ⟨p, hp, hemitted⟩ := mem_stationEvents.mp h
  obtain ⟨htaken, hconfig⟩ := station_taken ht hp
  rw [htaken] at hemitted
  obtain ⟨now, raw, source, req, hcall, hr, hmac, hid⟩ := Evse.named_of_matched hemitted
  rw [hconfig] at hmac hid
  have hheard : t.call.heard = some raw := heard_of_stationTurn hp hcall
  obtain ⟨before, after, hsplit⟩ := List.mem_iff_append.mp ht
  obtain ⟨e, -, he, o, rfl, hvehicle | ⟨i, hstation⟩⟩ := sent_of_mem hmedium hsplit hheard
  · -- the request is the vehicle's
    obtain ⟨entry, hentry, hsaid⟩ := hscript e he o hvehicle
    rw [hr] at hsaid
    have heq : entry.2 = .matchReq req := (congrArg Prod.snd (Option.some.inj hsaid)).symm
    rcases Ev.mem_script hentry with ⟨hne, -⟩ | hreq
    · rw [heq] at hne
      exact absurd rfl hne
    · rw [heq] at hreq
      cases hreq
      exact ⟨hmac.symm, hid.symm⟩
  · -- and no station's
    obtain ⟨q, hq, hqueued⟩ := mem_stationFrames.mp hstation
    rw [(station_taken he hq).1] at hqueued
    exact absurd hr (Evse.not_matchReq_of_queued hqueued)

/-- The key the vehicle accepts was granted to it, earlier, by the station it matches with. -/
theorem granted_of_matched (hmedium : Unforged config stations acts) {mac : MacAddr}
    {id : StationId}
    (hscript : ∀ t ∈ history config stations acts, ∀ o ∈ vehicleFrames t,
      ∃ entry ∈ Ev.script config mac id, receive o.frame = some (config.mac, entry.2))
    {before after : List (Transition (Network ι) (Act ι))} {t : Transition (Network ι) (Act ι)}
    (hsplit : history config stations acts = before ++ t :: after)
    {evseMac : MacAddr} {evseId : StationId} {nmk : Nmk} {nid : Nid}
    (h : .matched evseMac evseId nmk nid ∈ vehicleEvents t) :
    ∃ i, (stations i).mac = evseMac ∧ (stations i).id = evseId
      ∧ ∃ e ∈ before, .matched config.id config.mac nmk ∈ stationEvents i e := by
  have ht : t ∈ history config stations acts := by
    rw [hsplit]
    exact List.mem_append_right _ (List.mem_cons_self ..)
  obtain ⟨p, hp, hemitted⟩ := mem_vehicleEvents.mp h
  obtain ⟨-, htaken, hconfig⟩ := vehicle_taken ht hp
  rw [htaken] at hemitted
  -- the vehicle has read a confirmation, addressed to it
  obtain ⟨cnf, hkeyed, rfl, rfl, rfl, -⟩ := Ev.keyed_of_matched hemitted
  obtain ⟨now, raw, source, hcall, hr⟩ := hkeyed.delivered
  obtain ⟨hpevMac, hpevId⟩ := hkeyed.addressed
  rw [hconfig] at hpevMac hpevId
  have hheard : t.call.heard = some raw := heard_of_vehicleTurn hp hcall
  -- someone has sent that frame
  obtain ⟨e, hbefore, he, o, rfl, hvehicle | ⟨i, hstation⟩⟩ := sent_of_mem hmedium hsplit hheard
  · -- the vehicle confirms nothing
    obtain ⟨entry, hentry, hsaid⟩ := hscript e he o hvehicle
    rw [hr] at hsaid
    have heq : entry.2 = .matchCnf cnf := (congrArg Prod.snd (Option.some.inj hsaid)).symm
    rcases Ev.mem_script hentry with ⟨-, hne⟩ | hreq
    · rw [heq] at hne
      exact absurd rfl hne
    · rw [heq] at hreq
      cases hreq
  · -- the confirmation is a station's, and in it the station names itself
    obtain ⟨q, hq, hqueued⟩ := mem_stationFrames.mp hstation
    obtain ⟨hqtaken, hqconfig⟩ := station_taken he hq
    rw [hqtaken] at hqueued
    obtain ⟨hmac, hid, hmatched⟩ := Evse.matched_of_queued hqueued hr
    rw [hqconfig] at hmac hid
    rw [← hqtaken, hpevMac, hpevId] at hmatched
    exact ⟨i, hmac.symm, hid.symm, e, hbefore, mem_stationEvents.mpr ⟨q, hq, hmatched⟩⟩

/-- Whenever the vehicle reports a match, the station it names has reported one before, with this
vehicle and under the same key, and no other station reports one at any time. -/
def MatchesAgree (config : EvConfig) (stations : ι → EvseConfig) (acts : List (Act ι)) : Prop :=
  Along (fun log t => ∀ evseMac evseId nmk nid,
      .matched evseMac evseId nmk nid ∈ vehicleEvents t →
        ∃ i, (stations i).mac = evseMac ∧ (stations i).id = evseId
          ∧ (∃ e ∈ log, .matched config.id config.mac nmk ∈ stationEvents i e)
          ∧ ∀ j, j ≠ i → ∀ e ∈ history config stations acts, ∀ pevId pevMac key,
              .matched pevId pevMac key ∉ stationEvents j e)
    (history config stations acts)

/-- **Agreement.** One vehicle, started at most once, and any number of stations whose addresses
and identities tell them apart, on a medium that forges nothing: in every interleaving the matches
agree. -/
theorem agreement (config : EvConfig) (stations : ι → EvseConfig)
    (hdistinct : Function.Injective fun i => ((stations i).mac, (stations i).id))
    (acts : List (Act ι)) (honce : (acts.filterMap Act.ofVehicle).countP Ev.Call.starts ≤ 1)
    (hmedium : Unforged config stations acts) : MatchesAgree config stations acts := by
  intro before t after hsplit evseMac evseId nmk nid hmatched
  obtain ⟨mac, id, hscript⟩ := vehicle_scripted config stations honce
  obtain ⟨i, hmac, hid, e, he, hgranted⟩ := granted_of_matched hmedium hscript hsplit hmatched
  refine ⟨i, hmac, hid, ⟨e, he, hgranted⟩, fun j hj e' he' pevId pevMac key hother => hj ?_⟩
  have hmem : e ∈ history config stations acts := by
    rw [hsplit]
    exact List.mem_append_left _ he
  -- both matched, so the vehicle's one request names both
  have hi := named_of_matched hmedium hscript hmem hgranted
  have hj := named_of_matched hmedium hscript he' hother
  refine hdistinct ?_
  show ((stations j).mac, (stations j).id) = ((stations i).mac, (stations i).id)
  rw [hi.1, hi.2, hj.1, hj.2]

end Network

/-! ## Two stations in earshot

Both stations answer and report, packets of the burst are lost, and the request for the key
reaches the wrong station too. -/

namespace Network.Sample

abbrev ev : EvConfig := Ev.Sample.vehicle

/-- The station of the sample exchange, and the one beside it. -/
def stations (near : Bool) : EvseConfig :=
  if near then Slac.Sample.station
  else { Slac.Sample.station with mac := Bytes.replicate 6 0x03, id := Bytes.replicate 17 0x46 }

/-- The vehicle does something, and writes the next frame of its queue. -/
def writes (c : Ev.Call) : List (Act Bool) := [.vehicle c, .vehicle .pollTransmit]

/-- Both stations make the same call. -/
def both (c : Evse.Call) : List (Act Bool) := [.station true c, .station false c]

def parmReq : SlacParmReq := ⟨ev.runId⟩

def announcement : StartAttenCharInd :=
  ⟨10, Timers.soundingTimeout, respType, ev.mac, ev.runId⟩

/-- The first packet of the burst; the others are lost. -/
def sound : MnbcSoundInd := ⟨ev.id, 9, ev.runId, ev.soundingPayload⟩

/-- What a station answers: it is there, it has measured, and here is its key. -/
def answers (near : Bool) : List UInt8 :=
  wire ev.mac (stations near).mac .slacParmCnf (Evse.parmCnf ev.mac parmReq).encode

def reports (near : Bool) : List UInt8 :=
  wire ev.mac (stations near).mac .attenCharInd
    (AttenCharInd.mk ev.mac ev.runId ev.id (stations near).id 1
      ⟨58, Bytes.replicate 58 (if near then 30 else 60)⟩).encode

def matchReq : List UInt8 :=
  wire (stations true).mac ev.mac .slacMatchReq
    (SlacMatchReq.mk ev.id ev.mac (stations true).id (stations true).mac
      ev.runId).encode

def matchCnf : List UInt8 :=
  wire ev.mac (stations true).mac .slacMatchCnf
    (SlacMatchCnf.mk ev.id ev.mac (stations true).id (stations true).mac ev.runId
      (stations true).nid (stations true).nmk).encode

/-- Both stations answer and report, and the nearer one is asked for its key. The request reaches
the other one as well. -/
def exchange : List (Act Bool) :=
  writes (.start ⟨0⟩)
    ++ both (.frame ⟨10⟩ (wire broadcast ev.mac .slacParmReq parmReq.encode))
    ++ both .pollTransmit
    ++ [.vehicle (.frame ⟨20⟩ (answers true)), .vehicle (.frame ⟨30⟩ (answers false))]
    ++ (List.range 14).flatMap (fun k => writes (.timeout ⟨UInt64.ofNat (1000 * (k + 1))⟩))
    ++ both (.frame ⟨2010⟩ (wire broadcast ev.mac .startAttenCharInd announcement.encode))
    ++ both (.frame ⟨4010⟩ (wire broadcast ev.mac .mnbcSoundInd sound.encode))
    ++ [.station true (.observe ⟨58, Bytes.replicate 58 30⟩),
      .station false (.observe ⟨58, Bytes.replicate 58 60⟩)]
    ++ both (.timeout ⟨15000⟩) ++ both .pollTransmit
    ++ [.vehicle (.frame ⟨15010⟩ (reports false)), .vehicle (.frame ⟨15020⟩ (reports true))]
    ++ writes (.timeout ⟨20000⟩) ++ [.vehicle .pollTransmit]
    ++ both (.frame ⟨20010⟩ matchReq) ++ both .pollTransmit
    ++ [.vehicle (.frame ⟨20020⟩ matchCnf)]

end Network.Sample

/-- Two stations hear the vehicle, and it matches with the nearer one. -/
theorem Network.agreement_twoStations :
    (Lib.run Network.act (Network.new Ev.Sample.vehicle Network.Sample.stations)
        Network.Sample.exchange).vehicle.state = .matched
      ∧ Network.MatchesAgree Ev.Sample.vehicle Network.Sample.stations Network.Sample.exchange := by
  have hdistinct : Function.Injective fun near =>
      ((Network.Sample.stations near).mac, (Network.Sample.stations near).id) := by
    intro near other
    revert near other
    decide
  have hmedium : Network.Unforged Ev.Sample.vehicle Network.Sample.stations
      Network.Sample.exchange := by
    unfold Network.Unforged
    decide +kernel
  exact ⟨by decide +kernel,
    Network.agreement Ev.Sample.vehicle Network.Sample.stations hdistinct Network.Sample.exchange
      (by decide +kernel) hmedium⟩

end Iso15118.Slac
