import Iso15118.Drivers.Link
import Iso15118.Negotiation
import Iso15118.Secc.Close

/-!
# What the handshake settles

`supportedAppProtocolReq` one way and `supportedAppProtocolRes` back. Whatever the two are
configured for, and however the link is run, once the vehicle has read the answer both hold one
generation and one message set, or both have closed for want of one; and which of the two it is, the
configurations say: **`handshake_agreement`**.

On the way there the link goes through the states of **`Opening`**.

The stages are told by what is under way: nothing, the offer, the answer that accepts or the one
that rejects. Bytes of a stage may arrive in any pieces, and a piece that completes no message
changes only what is buffered, so the invariant speaks of the bytes received together with those
still between the two. When the answer is read, either both sides are open on one generation or both
are closed, and neither ever goes back on that (`Decided`).
-/

namespace Iso15118

open Iso15118.Lib Iso15118.Session
open Iso15118.Message (Codec)
open Iso15118.AppProtocol (Negotiated Choice)
open Iso15118.Session.Connection (Frames)

/-! ## The two sides of the negotiation

Station and vehicle are configured with generations and message sets. What the station settles on
was shown to be the first common choice; here the configurations are put in. -/

/-- What the station settles on, of an offer. -/
def Secc.agreement (config : SeccConfig) (req : AppProtocol.Req) : Option Negotiated :=
  req.negotiateWith (config.protocols.retain Flow.supports) config.iso20Sets

/-- What it answers. -/
def Secc.answerTo (config : SeccConfig) (req : AppProtocol.Req) : AppProtocol.Res :=
  match agreement config req with
  | none => .reject
  | some a => .accept a

/-- A generation of this build that both are configured for; for -20 it takes a message set too. -/
def Common (vehicle : EvccConfig) (station : SeccConfig) : Prop :=
  ∃ p, Flow.supports p = true ∧ p ∈ vehicle.protocols.entries ∧ p ∈ station.protocols.entries
    ∧ (p = .iso20 → ∃ set ∈ vehicle.iso20Sets, set ∈ station.iso20Sets)

theorem mem_retain {protocols : Protocols} {f : Protocol → Bool} {p : Protocol} :
    p ∈ (protocols.retain f).entries ↔ p ∈ protocols.entries ∧ f p = true := List.mem_filter

theorem Evcc.mem_advertised {config : EvccConfig} {p : Protocol} :
    p ∈ (advertised config).entries
      ↔ p ∈ config.protocols.entries ∧ Flow.supports p = true
        ∧ (p = .iso20 → config.iso20Sets ≠ []) := by
  unfold advertised
  dsimp only
  split
  · next hempty =>
    rw [Protocols.remove, mem_retain, mem_retain, List.isEmpty_iff.mp hempty]
    simp only [ne_eq, decide_eq_true_eq, not_true_eq_false, and_assoc]
  · next hsets =>
    rw [mem_retain]
    have hne : config.iso20Sets ≠ [] := by simpa using hsets
    simp [hne]

/-- The station settles on something exactly when there is something in common. -/
theorem isSome_agreement (vehicle : EvccConfig) (station : SeccConfig) :
    (Secc.agreement station (Evcc.offered vehicle)).isSome = true ↔ Common vehicle station := by
  rw [Secc.agreement, Evcc.offered, AppProtocol.isSome_negotiateWith]
  constructor
  · rintro ⟨p, set, hp, hstation, hchoice, hsets⟩
    obtain ⟨hvehicle, hsupports, -⟩ := Evcc.mem_advertised.mp hp
    refine ⟨p, hsupports, hvehicle, (mem_retain.mp hstation).1, ?_⟩
    rintro rfl
    obtain ⟨s, hs, rfl⟩ := hchoice
    exact ⟨s, hs, hsets s rfl⟩
  · rintro ⟨p, hsupports, hvehicle, hstation, hsets⟩
    cases p with
    | din70121 => cases hsupports
    | iso2 =>
      refine ⟨.iso2, none, Evcc.mem_advertised.mpr ⟨hvehicle, rfl, fun h => by cases h⟩,
        mem_retain.mpr ⟨hstation, rfl⟩, rfl, fun s h => by cases h⟩
    | iso20 =>
      obtain ⟨s, hs, hs'⟩ := hsets rfl
      refine ⟨.iso20, some s, Evcc.mem_advertised.mpr ⟨hvehicle, rfl, fun _ => ?_⟩,
        mem_retain.mpr ⟨hstation, rfl⟩, ⟨s, hs, rfl⟩, fun s' h => ?_⟩
      · exact List.ne_nil_of_mem hs
      · cases h
        exact hs'

/-- There is a flow for what has been settled on. -/
theorem exists_flow_of_agreement {vehicle : EvccConfig} {station : SeccConfig} {a : Negotiated}
    (h : Secc.agreement station (Evcc.offered vehicle) = some a) (security : Security) :
    ∃ flow, Flow.new a.protocol security = some flow := by
  obtain ⟨hprotocol, -⟩ := AppProtocol.find?_of_negotiateWith _ _ _ _ h
  have hsupports := (mem_retain.mp hprotocol).2
  cases hp : a.protocol with
  | din70121 =>
    rw [hp] at hsupports
    cases hsupports
  | iso2 => exact ⟨_, rfl⟩
  | iso20 => exact ⟨_, rfl⟩

/-- The vehicle finds under the number it is given what the station has settled on. -/
theorem chosen_of_agreement {vehicle : EvccConfig} {station : SeccConfig} {a : Negotiated}
    (h : Secc.agreement station (Evcc.offered vehicle) = some a) :
    Evcc.chosen (some (Evcc.offered vehicle)) a.schemaId = some (a.protocol, a.iso20Set) := by
  obtain ⟨-, e, hfind, hprotocol, hset⟩ := AppProtocol.find?_of_negotiateWith _ _ _ _ h
  unfold Evcc.chosen
  rw [Option.bind_some, show (Evcc.offered vehicle).appProtocols.find? _ = some e from hfind,
    Option.bind_some, hprotocol, hset]
  rfl

/-! ## The station reads the offer

One message, and two ways on: with nothing in common the station closes, otherwise it has a flow
from here on. -/

section Station

variable {codec : Codec} {s : Secc} {req : AppProtocol.Req} {frame payload : List UInt8}

theorem Secc.dispatch_offer_rejected (now : Instant) (hflow : s.flow = none)
    (hopen : s.closed = false) (hnone : agreement s.config req = none)
    (h : Frames codec s.conn.maxPayloadLen (.appProtocolRes .reject) frame payload) :
    ∃ timers, s.dispatch codec now (.appProtocolReq req)
      = (.ok (),
        { s with
          timers := timers
          conn := { s.conn with tx := s.conn.tx ++ frame }
          closed := true
          events := s.events ++ [.closed .noCommonProtocol] }) := by
  unfold dispatch handshake
  dsimp only
  rw [if_neg (by simp [hflow]), show AppProtocol.Req.negotiateWith req _ _ = none from hnone,
    Connection.send_of_frames h]
  dsimp only [Option.bind_none]
  rw [close_of_open (by exact hopen)]
  exact ⟨_, rfl⟩

theorem Secc.dispatch_offer_accepted {a : Negotiated} {flow : Flow} (now : Instant)
    (hflow : s.flow = none) (hsome : agreement s.config req = some a)
    (hnew : Flow.new a.protocol s.config.security = some flow)
    (h : Frames codec s.conn.maxPayloadLen (.appProtocolRes (.accept a)) frame payload) :
    ∃ timers, s.dispatch codec now (.appProtocolReq req)
      = (.ok (),
        { s with
          timers := timers
          conn := { s.conn with tx := s.conn.tx ++ frame, protocol := some a.protocol }
          iso20Set := a.iso20Set
          flow := some flow
          events := s.events ++ [.protocolAgreed a.protocol] }) := by
  unfold dispatch handshake
  dsimp only
  rw [if_neg (by simp [hflow]), show AppProtocol.Req.negotiateWith req _ _ = some a from hsome,
    Option.bind_some, hnew, Option.map_some]
  dsimp only
  rw [Connection.send_of_frames h]
  exact ⟨_, rfl⟩

end Station

/-! ## The vehicle reads the answer

The number in the answer names one entry of the vehicle's own offer, or there is none and it
closes. -/

section Vehicle

variable {e : Evcc} {vehicle : EvccConfig} {station : SeccConfig}

/-- A vehicle that is told there is nothing in common ends the session. -/
theorem Evcc.dispatch_rejected (now : Instant)
    (howed : e.outstanding = some "supportedAppProtocolReq") (hopen : e.closed = false) :
    ∃ timers, e.dispatch now (.appProtocolRes .reject)
      = (.ok (),
        { e with
          timers := timers
          outstanding := none
          answeredAt := some now
          closed := true
          events := e.events ++ [.closed .noCommonProtocol] }) := by
  have hreq : (Message.appProtocolRes .reject).isRequest = false := by decide
  have hpairs : (Message.appProtocolRes .reject).answers "supportedAppProtocolReq" = true := by
    decide
  unfold dispatch
  rw [if_neg (by simp [hreq]), howed]
  dsimp only
  rw [if_neg (by simp [hpairs])]
  unfold handshake
  dsimp only [AppProtocol.Res.reject, Option.filter]
  rw [close_of_open (by exact hopen)]
  exact ⟨_, rfl⟩

/-- A vehicle that is told a schema id it has offered is in the session the entry stands for. -/
theorem Evcc.dispatch_accepted {a : Negotiated} {flow : Flow} (now : Instant)
    (howed : e.outstanding = some "supportedAppProtocolReq")
    (hchosen : chosen e.offer a.schemaId = some (a.protocol, a.iso20Set))
    (hnew : Flow.new a.protocol e.config.security = some flow) :
    ∃ timers, e.dispatch now (.appProtocolRes (.accept a))
      = (.ok (),
        { e with
          timers := timers
          outstanding := none
          answeredAt := some now
          iso20Set := a.iso20Set
          conn := { e.conn with protocol := some a.protocol }
          flow := some flow
          events := e.events ++ [.protocolAgreed a.protocol] }) := by
  -- the answer is a response, and pairs with the offer
  have hreq : ∀ res, (Message.appProtocolRes res).isRequest = false := fun _ => by
    exact (by decide : Message.endsWith "supportedAppProtocolRes" "Req" = false)
  have hpairs : ∀ res, (Message.appProtocolRes res).answers "supportedAppProtocolReq" = true :=
    fun _ => Message.answers_iff.mpr ⟨"supportedAppProtocol", by decide, by
      exact (by decide : "supportedAppProtocolRes" = "supportedAppProtocol" ++ "Res")⟩
  unfold dispatch
  rw [if_neg (by simp [hreq]), howed]
  dsimp only
  rw [if_neg (by simp [hpairs])]
  unfold handshake
  dsimp only [AppProtocol.Res.accept]
  -- the code is a positive one, so the schema id in it counts
  have hok : a.responseCode.isOk = true := by
    unfold Negotiated.responseCode
    split <;> rfl
  rw [hok]
  dsimp only [Option.filter]
  rw [if_pos rfl]
  dsimp only
  rw [hchosen]
  dsimp only
  rw [hnew]
  exact ⟨_, rfl⟩

end Vehicle

/-! ## On the way there

The stages of the handshake, each with the bytes under way. A stage is left when the last byte of
its message has been read; reading less changes nothing that matters here. -/

/-- The vehicle once its offer is out. -/
def Evcc.offering (vehicle : EvccConfig) : Evcc :=
  { (Evcc.new vehicle).core with
    offer := some (offered vehicle)
    outstanding := some "supportedAppProtocolReq" }

/-- The handshake up to the vehicle's reading the answer: nothing asked yet, the offer on its way,
or the answer on its way, which the station has acted on already. -/
inductive Opening (codec : Codec) (vehicle : EvccConfig) (station : SeccConfig)
    (log : List Evcc.Act) (evs : List Secc.Event) (e : Evcc) (s : Secc) :
    List UInt8 → List UInt8 → Prop where
  | fresh (hlog : log = []) (hevs : evs = []) (he : e = (Evcc.new vehicle).core)
      (hs : s = (Secc.new station).core) : Opening codec vehicle station log evs e s [] []
  | offered {frame payload : List UInt8}
      (hlog : log = [.sent (.appProtocolReq (Evcc.offered vehicle))]) (hevs : evs = [])
      (he : e = Evcc.offering vehicle) (hs : s = (Secc.new station).core)
      (h : Frames codec vehicle.maxPayloadLen (.appProtocolReq (Evcc.offered vehicle)) frame
        payload) :
      Opening codec vehicle station log evs e s frame []
  | rejected {frame payload : List UInt8}
      (hlog : log = [.sent (.appProtocolReq (Evcc.offered vehicle))])
      (hevs : evs = [.closed .noCommonProtocol])
      (he : e = Evcc.offering vehicle) (hs : s = { (Secc.new station).core with closed := true })
      (hnone : Secc.agreement station (Evcc.offered vehicle) = none)
      (h : Frames codec vehicle.maxPayloadLen (.appProtocolRes .reject) frame payload) :
      Opening codec vehicle station log evs e s [] frame
  | accepted {frame payload : List UInt8} {a : Negotiated} {flow : Flow}
      (hlog : log = [.sent (.appProtocolReq (Evcc.offered vehicle))])
      (hevs : evs = [.protocolAgreed a.protocol])
      (he : e = Evcc.offering vehicle)
      (hs : s = { (Secc.new station).core with
        conn := { (Secc.new station).core.conn with protocol := some a.protocol }
        iso20Set := a.iso20Set
        flow := some flow })
      (hsome : Secc.agreement station (Evcc.offered vehicle) = some a)
      (hnew : Flow.new a.protocol station.security = some flow)
      (h : Frames codec vehicle.maxPayloadLen (.appProtocolRes (.accept a)) frame payload) :
      Opening codec vehicle station log evs e s [] frame

/-- The vehicle has read the answer, and nothing else has happened since. -/
inductive Opened (vehicle : EvccConfig) (station : SeccConfig) (log : List Evcc.Act)
    (evs : List Secc.Event) (e : Evcc) (s : Secc) : Prop where
  | rejected
      (hlog : log = [.sent (.appProtocolReq (Evcc.offered vehicle)),
        .event (.closed .noCommonProtocol)])
      (hevs : evs = [.closed .noCommonProtocol])
      (he : e = { Evcc.offering vehicle with outstanding := none, closed := true })
      (hs : s = { (Secc.new station).core with closed := true })
      (hnone : Secc.agreement station (Evcc.offered vehicle) = none)
  | agreed {a : Negotiated} {flow flow' : Flow}
      (hlog : log = [.sent (.appProtocolReq (Evcc.offered vehicle)),
        .event (.protocolAgreed a.protocol)])
      (hevs : evs = [.protocolAgreed a.protocol])
      (he : e = { Evcc.offering vehicle with
        outstanding := none
        conn := { (Evcc.offering vehicle).conn with protocol := some a.protocol }
        iso20Set := a.iso20Set
        flow := some flow' })
      (hs : s = { (Secc.new station).core with
        conn := { (Secc.new station).core.conn with protocol := some a.protocol }
        iso20Set := a.iso20Set
        flow := some flow })
      (hsome : Secc.agreement station (Evcc.offered vehicle) = some a)
      (hnew : Flow.new a.protocol station.security = some flow)
      (hnew' : Flow.new a.protocol vehicle.security = some flow')

/-- Both messages of the handshake get through: an offer the vehicle can send is one the station can
read, and the answer to it one the station can send and the vehicle can read. -/
structure Deliverable (codec : Codec) (vehicle : EvccConfig) (station : SeccConfig) : Prop where
  offer : ∀ {frame payload}, Frames codec vehicle.maxPayloadLen
    (.appProtocolReq (Evcc.offered vehicle)) frame payload → payload.length ≤ station.maxPayloadLen
  answer : ∀ {frame payload}, Frames codec vehicle.maxPayloadLen
    (.appProtocolReq (Evcc.offered vehicle)) frame payload →
      ∃ frame' payload', Frames codec station.maxPayloadLen
          (.appProtocolRes (Secc.answerTo station (Evcc.offered vehicle))) frame' payload'
        ∧ payload'.length ≤ vehicle.maxPayloadLen

section Steps

variable {codec : Codec} {vehicle : EvccConfig} {station : SeccConfig} {log : List Evcc.Act}
  {evs : List Secc.Event} {u d : List UInt8}

/-- What is the same in all of it. -/
structure Opening.Facts (e : Evcc) (s : Secc) : Prop where
  closed : e.closed = false
  flow : e.flow = none
  outstanding : s.outstanding = none
  vehicleFrames : e.conn.frames = []
  stationFrames : s.conn.frames = []

theorem Opening.facts {e : Evcc} {s : Secc} (h : Opening codec vehicle station log evs e s u d) :
    Facts e s := by
  cases h with
  | fresh hlog hevs he hs =>
    rw [he, hs]
    exact ⟨rfl, rfl, rfl, rfl, rfl⟩
  | offered hlog hevs he hs h =>
    rw [he, hs]
    exact ⟨rfl, rfl, rfl, rfl, rfl⟩
  | rejected hlog hevs he hs hnone h =>
    rw [he, hs]
    exact ⟨rfl, rfl, rfl, rfl, rfl⟩
  | accepted hlog hevs he hs hsome hnew h =>
    rw [he, hs]
    exact ⟨rfl, rfl, rfl, rfl, rfl⟩

/-- The offer is the first thing on its way. -/
theorem Opening.start {s : Secc} {frame payload : List UInt8} (e : Evcc)
    (h : Opening codec vehicle station log evs e.core s u d) (hidle : e.outstanding = none)
    (hframes : Frames codec e.conn.maxPayloadLen (.appProtocolReq (Evcc.offered e.config)) frame
      payload) :
    Opening codec vehicle station (log ++ [.sent (.appProtocolReq (Evcc.offered e.config))]) evs
      { e.core with
        offer := some (Evcc.offered e.config)
        outstanding := some "supportedAppProtocolReq" } s (u ++ frame) d := by
  have howed : e.core ≠ Evcc.offering vehicle := by
    intro heq
    have hsome : e.outstanding = some "supportedAppProtocolReq" :=
      congrArg Evcc.outstanding heq
    rw [hidle] at hsome
    cases hsome
  cases h with
  | fresh hlog hevs he hs =>
    have hconfig : e.config = vehicle := congrArg Evcc.config he
    have hlimit : e.conn.maxPayloadLen = vehicle.maxPayloadLen :=
      congrArg (fun e : Evcc => e.conn.maxPayloadLen) he
    rw [hconfig, hlimit] at hframes
    rw [hconfig, he, hlog]
    exact .offered rfl hevs rfl hs hframes
  | offered hlog hevs he hs h => exact absurd he howed
  | rejected hlog hevs he hs hnone h => exact absurd he howed
  | accepted hlog hevs he hs hsome hnew h => exact absurd he howed

/-- The last of the offer: the station settles it, and its answer is on the way. -/
theorem opening_answered {e : Evcc} {frame payload data : List UInt8} (hcodec : codec.Lossless)
    (hdelivers : Deliverable codec vehicle station) (s : Secc) (now : Instant)
    (hlog : log = [.sent (.appProtocolReq (Evcc.offered vehicle))]) (hevs : evs = [])
    (he : e = Evcc.offering vehicle) (hs : s.core = (Secc.new station).core)
    (h : Frames codec vehicle.maxPayloadLen (.appProtocolReq (Evcc.offered vehicle)) frame payload)
    (heq : s.conn.rx ++ data = frame) (htx : s.conn.tx = []) :
    (s.call codec (.handleInput now data)).conn.rx = []
      ∧ Opening codec vehicle station log (evs ++ s.emits codec (.handleInput now data)) e
        (s.call codec (.handleInput now data)).core []
        (s.call codec (.handleInput now data)).conn.tx := by
  -- what the station has in common with a new one
  have hframes : s.conn.frames = [] := congrArg (fun s : Secc => s.conn.frames) hs
  have hconfig : s.config = station := congrArg Secc.config hs
  have hlimit : s.conn.maxPayloadLen = station.maxPayloadLen :=
    congrArg (fun s : Secc => s.conn.maxPayloadLen) hs
  have hroom : s.conn.maxPendingFrames = max station.maxPendingFrames 1 :=
    congrArg (fun s : Secc => s.conn.maxPendingFrames) hs
  have hprotocol : s.conn.protocol = none := congrArg (fun s : Secc => s.conn.protocol) hs
  have hopen : s.closed = false := congrArg Secc.closed hs
  have hidle : s.outstanding = none := congrArg Secc.outstanding hs
  have hflow : s.flow = none := congrArg Secc.flow hs
  have hcore : s.consumed.core = (Secc.new station).core := (Secc.core_consumed hframes).trans hs
  have hoffer : Frames codec s.conn.maxPayloadLen (.appProtocolReq (Evcc.offered vehicle)) frame
      payload := h.of_le (by rw [hlimit]; exact hdelivers.offer h)
  obtain ⟨frame', payload', hanswer, hfits⟩ := hdelivers.answer h
  -- rejected or accepted, the offer is read in the same way
  have hread : ∀ {s' : Secc}, s.consumed.dispatch codec now
      (.appProtocolReq (Evcc.offered vehicle)) = (.ok (), s') →
      s.handleInput codec now data = (.ok (), s') := fun hdispatch =>
    Secc.handleInput_whole hcodec now hopen hidle hoffer hprotocol.symm hframes
      (by rw [hroom]; omega) heq hdispatch
  rw [← hlimit] at hanswer
  cases hagreement : Secc.agreement station (Evcc.offered vehicle) with
  -- nothing in common: the station has closed, and says so
  | none =>
    rw [Secc.answerTo, hagreement] at hanswer
    obtain ⟨timers, hdispatch⟩ := Secc.dispatch_offer_rejected (s := s.consumed) now hflow hopen
      (by rw [← hagreement, ← hconfig]; rfl) hanswer
    have hinput := hread hdispatch
    rw [Secc.emits_handleInput hinput rfl, show s.call codec (.handleInput now data) = _ from
      congrArg Prod.snd hinput, hevs]
    refine ⟨rfl, ?_⟩
    show Opening _ _ _ _ _ _ _ _ (s.conn.tx ++ frame')
    rw [htx]
    refine .rejected hlog rfl he ?_ hagreement (hanswer.of_le hfits)
    rw [← hcore]
    rfl
  -- something in common: the station has its flow
  | some a =>
    rw [Secc.answerTo, hagreement] at hanswer
    obtain ⟨flow, hnew⟩ := exists_flow_of_agreement hagreement station.security
    obtain ⟨timers, hdispatch⟩ := Secc.dispatch_offer_accepted (s := s.consumed) now hflow
      (by rw [← hagreement, ← hconfig]; rfl) (by rw [← hnew, ← hconfig]; rfl) hanswer
    have hinput := hread hdispatch
    rw [Secc.emits_handleInput hinput rfl, show s.call codec (.handleInput now data) = _ from
      congrArg Prod.snd hinput, hevs]
    refine ⟨rfl, ?_⟩
    show Opening _ _ _ _ _ _ _ _ (s.conn.tx ++ frame')
    rw [htx]
    refine .accepted hlog rfl he ?_ hagreement hnew (hanswer.of_le hfits)
    rw [← hcore]
    rfl

/-- The station reads: part of the offer, which changes nothing, or the last of it. -/
theorem Opening.stationReads {e : Evcc} {x rest : List UInt8} (hcodec : codec.Lossless)
    (hdelivers : Deliverable codec vehicle station) (s : Secc) (now : Instant) (data : List UInt8)
    (h : Opening codec vehicle station log evs e s.core (s.conn.rx ++ data ++ rest)
      (x ++ s.conn.tx)) :
    Opening codec vehicle station log (evs ++ s.emits codec (.handleInput now data)) e
      (s.call codec (.handleInput now data)).core
      ((s.call codec (.handleInput now data)).conn.rx ++ rest)
      (x ++ (s.call codec (.handleInput now data)).conn.tx) := by
  have hframes : s.conn.frames = [] := h.facts.stationFrames
  by_cases hnil : s.conn.rx ++ data ++ rest = []
  -- with nothing on the way up, there is nothing to read
  · obtain ⟨hcall, hemits, hdata, -⟩ := Secc.reads_nothing codec now hframes hnil
    rw [hcall, hemits, List.append_nil]
    rw [hdata, List.append_nil] at h
    exact h
  · have hsame := h
    generalize hu : s.conn.rx ++ data ++ rest = u at h hnil
    generalize hd : x ++ s.conn.tx = d at h
    cases h with
    | fresh hlog hevs he hs => exact absurd rfl hnil
    | rejected hlog hevs he hs hnone h => exact absurd rfl hnil
    | accepted hlog hevs he hs hsome hnew h => exact absurd rfl hnil
    | offered hlog hevs he hs h =>
      have hlimit : s.conn.maxPayloadLen = station.maxPayloadLen :=
        congrArg (fun s : Secc => s.conn.maxPayloadLen) hs
      have hoffer := h.of_le (hdelivers.offer h)
      rw [← hlimit] at hoffer
      have hopen : s.closed = false := congrArg Secc.closed hs
      rcases Secc.reads_cases now hopen hoffer hframes hu with
        ⟨hcore, hrx, htx, hemits⟩ | ⟨hrest, heq⟩
      · rw [hcore, hrx, htx, hemits, List.append_nil]
        exact hsame
      · obtain ⟨hx, htx⟩ := List.append_eq_nil_iff.mp hd
        obtain ⟨hrx, hopening⟩ :=
          opening_answered hcodec hdelivers s now hlog hevs he hs h heq htx
        rw [hrx, hrest, hx]
        exact hopening

/-- The last of the answer: the vehicle has settled it too. -/
theorem Opening.opened {s : Secc} {frame data : List UInt8} (hcodec : codec.Lossless) (e : Evcc)
    (now : Instant) (h : Opening codec vehicle station log evs e.core s u frame)
    (hne : frame ≠ []) (heq : e.conn.rx ++ data = frame) :
    u = [] ∧ Opened vehicle station (log ++ e.logs codec (.handleInput now data)) evs
        (e.call codec (.handleInput now data)).core s
      ∧ (e.call codec (.handleInput now data)).conn.tx = e.conn.tx
      ∧ (e.call codec (.handleInput now data)).conn.rx = [] := by
  have hopen : e.closed = false := h.facts.closed
  have hframes : e.conn.frames = [] := h.facts.vehicleFrames
  -- both answers are read in the same way
  have hread : ∀ {res : AppProtocol.Res} {payload : List UInt8} {e' : Evcc},
      e.core = Evcc.offering vehicle →
      Frames codec vehicle.maxPayloadLen (.appProtocolRes res) frame payload →
      e.consumed.dispatch now (.appProtocolRes res) = (.ok (), e') →
      e.handleInput codec now data = (.ok (), e') := by
    intro res payload e' he hanswer hdispatch
    have hlimit : e.conn.maxPayloadLen = vehicle.maxPayloadLen :=
      congrArg (fun e : Evcc => e.conn.maxPayloadLen) he
    have hroom : e.conn.maxPendingFrames = max vehicle.maxPendingFrames 1 :=
      congrArg (fun e : Evcc => e.conn.maxPendingFrames) he
    have hprotocol : e.conn.protocol = none := congrArg (fun e : Evcc => e.conn.protocol) he
    rw [← hlimit] at hanswer
    exact Evcc.handleInput_whole hcodec now hopen hanswer hprotocol.symm hframes
      (by rw [hroom]; omega) heq hdispatch
  cases h with
  | fresh hlog hevs he hs => exact absurd rfl hne
  | offered hlog hevs he hs h => exact absurd rfl hne
  -- a rejection: the vehicle has nothing to agree on, and closes
  | rejected hlog hevs he hs hnone hanswer =>
    have hcore : e.consumed.core = Evcc.offering vehicle := (Evcc.core_consumed hframes).trans he
    have howed : e.consumed.outstanding = some "supportedAppProtocolReq" :=
      congrArg Evcc.outstanding he
    obtain ⟨timers, hdispatch⟩ := Evcc.dispatch_rejected (e := e.consumed) now howed hopen
    have hinput := hread he hanswer hdispatch
    rw [Evcc.logs_handleInput hinput rfl, show e.call codec (.handleInput now data) = _ from
      congrArg Prod.snd hinput, hlog]
    refine ⟨rfl, .rejected rfl hevs ?_ hs hnone, rfl, rfl⟩
    rw [← hcore]
    rfl
  -- an acceptance: under the number of the answer is the entry that the station has settled on
  | @accepted _ payload a flow hlog hevs he hs hsome hnew hanswer =>
    have hcore : e.consumed.core = Evcc.offering vehicle := (Evcc.core_consumed hframes).trans he
    have howed : e.consumed.outstanding = some "supportedAppProtocolReq" :=
      congrArg Evcc.outstanding he
    have hoffer : e.consumed.offer = some (Evcc.offered vehicle) := congrArg Evcc.offer he
    have hconfig : e.consumed.config = vehicle := congrArg Evcc.config he
    obtain ⟨flow', hnew'⟩ := exists_flow_of_agreement hsome vehicle.security
    obtain ⟨timers, hdispatch⟩ := Evcc.dispatch_accepted (e := e.consumed) (a := a) now howed
      (by rw [hoffer]; exact chosen_of_agreement hsome) (by rw [hconfig]; exact hnew')
    have hinput := hread he hanswer hdispatch
    rw [Evcc.logs_handleInput hinput rfl, show e.call codec (.handleInput now data) = _ from
      congrArg Prod.snd hinput, hlog]
    refine ⟨rfl, .agreed rfl hevs ?_ hs hsome hnew hnew', rfl, rfl⟩
    rw [← hcore]
    rfl

/-- The vehicle reads: part of the answer, which changes nothing, or the last of it. -/
theorem Opening.vehicleReads {s : Secc} {x rest : List UInt8} (hcodec : codec.Lossless)
    (e : Evcc) (now : Instant) (data : List UInt8)
    (h : Opening codec vehicle station log evs e.core s (x ++ e.conn.tx)
      (e.conn.rx ++ data ++ rest)) :
    Opening codec vehicle station (log ++ e.logs codec (.handleInput now data)) evs
        (e.call codec (.handleInput now data)).core s
        (x ++ (e.call codec (.handleInput now data)).conn.tx)
        ((e.call codec (.handleInput now data)).conn.rx ++ rest)
      ∨ (Opened vehicle station (log ++ e.logs codec (.handleInput now data)) evs
          (e.call codec (.handleInput now data)).core s
        ∧ x ++ (e.call codec (.handleInput now data)).conn.tx = []
        ∧ (e.call codec (.handleInput now data)).conn.rx ++ rest = []) := by
  have hopen : e.closed = false := h.facts.closed
  have hframes : e.conn.frames = [] := h.facts.vehicleFrames
  by_cases hnil : e.conn.rx ++ data ++ rest = []
  -- with nothing on the way down, there is nothing to read
  · obtain ⟨hcall, hlogs, hdata, -⟩ := Evcc.reads_nothing codec now hframes hnil
    left
    rw [hcall, hlogs, List.append_nil]
    rw [hdata, List.append_nil] at h
    exact h
  -- bytes on the way down are the answer to the offer
  · have hanswer : ∃ m payload, Frames codec e.conn.maxPayloadLen m (e.conn.rx ++ data ++ rest)
        payload := by
      have hlimit : e.core = Evcc.offering vehicle →
          e.conn.maxPayloadLen = vehicle.maxPayloadLen :=
        fun he => congrArg (fun e : Evcc => e.conn.maxPayloadLen) he
      generalize e.conn.rx ++ data ++ rest = d at h hnil
      generalize x ++ e.conn.tx = u at h
      cases h with
      | fresh hlog hevs he hs => exact absurd rfl hnil
      | offered hlog hevs he hs h => exact absurd rfl hnil
      | rejected hlog hevs he hs hnone h =>
        rw [hlimit he]
        exact ⟨_, _, h⟩
      | accepted hlog hevs he hs hsome hnew h =>
        rw [hlimit he]
        exact ⟨_, _, h⟩
    obtain ⟨m, payload, hanswer⟩ := hanswer
    rcases Evcc.reads_cases now hopen hanswer hframes rfl with
      ⟨hcore, hrx, htx, hlogs⟩ | ⟨hrest, heq⟩
    · left
      rw [hcore, hrx, htx, hlogs, List.append_nil]
      exact h
    · right
      obtain ⟨hup, hopened, htx, hrx⟩ := h.opened hcodec e now hnil heq
      rw [htx, hrx, hrest]
      exact ⟨hopened, hup, rfl⟩

end Steps

/-! ## From then on

What has been settled is never changed again, whatever else happens to either side. -/

/-- The vehicle holds the generation `p` and the message set `set`. -/
structure Evcc.Holds (e : Evcc) (p : Protocol) (set : Option Iso20Set) : Prop where
  protocol : e.conn.protocol = some p
  iso20Set : e.iso20Set = set
  flow : e.flow.isSome = true

/-- A vehicle that has settled on a protocol keeps it, whatever it does next. -/
theorem Evcc.Holds.step {R : Evcc → Message → Prop} {e e' : Evcc} {acts : List Act} {p : Protocol}
    {set : Option Iso20Set} (h : e.Holds p set) (hstep : Step R e acts e') : e'.Holds p set := by
  have htold : ∀ m, (told e.flow m).isSome = true := by
    intro m
    unfold told
    split
    · rw [Option.isSome_map]
      exact h.flow
    · exact h.flow
  cases hstep with
  | received conn hopen hconn => exact ⟨hconn.protocol.trans h.protocol, h.iso20Set, h.flow⟩
  | faulted conn answeredAt hopen hconn =>
    exact ⟨hconn.protocol.trans h.protocol, h.iso20Set, h.flow⟩
  | read now hopen hread hgen hdispatched =>
    rw [h.protocol] at hgen
    cases hdispatched with
    | rejected res set hm hans =>
      -- the handshake is of no generation
      rw [hm] at hgen
      cases hgen
    | agreed res protocol set flow hm hans hnew =>
      rw [hm] at hgen
      cases hgen
    | surfaced more timers hm hans hid hmore hongoing hsetup =>
      exact ⟨h.protocol, h.iso20Set, htold _⟩
    | ended why hm hans hid hwhy => exact ⟨h.protocol, h.iso20Set, htold _⟩

theorem Evcc.Holds.handleInput {e : Evcc} {p : Protocol} {set : Option Iso20Set}
    (h : e.Holds p set) (codec : Codec) (now : Instant) (data : List UInt8) :
    (e.call codec (.handleInput now data)).Holds p set := by
  obtain ⟨acts, hsteps, -⟩ := steps_handleInput codec e now data
  exact hsteps.invariant (g := []) (I := fun _ t => Evcc.Holds t p set)
    (fun _ _ _ _ ht hstep => ht.step hstep) h

/-- The station holds the generation `p` and the message set `set`. -/
structure Secc.Holds (s : Secc) (p : Protocol) (set : Option Iso20Set) : Prop where
  protocol : s.conn.protocol = some p
  iso20Set : s.iso20Set = set
  flow : s.flow.isSome = true

/-- A station that has settled on a protocol keeps it, whatever it does next. -/
theorem Secc.Holds.step {s s' : Secc} {acts : List Act} {p : Protocol} {set : Option Iso20Set}
    (h : s.Holds p set) (hstep : Step s acts s') : s'.Holds p set := by
  have hkept : ∀ {flow : Option Flow}, SameOrFailed s.flow flow → flow.isSome = true := by
    rintro flow (rfl | rfl)
    · exact h.flow
    · rw [Option.isSome_map]
      exact h.flow
  cases hstep with
  | received conn hopen hconn => exact ⟨hconn.protocol.trans h.protocol, h.iso20Set, h.flow⟩
  | faulted conn hopen hconn => exact ⟨hconn.protocol.trans h.protocol, h.iso20Set, h.flow⟩
  | read hopen hidle hdispatched =>
    have hflow := h.flow
    cases hdispatched with
    | rejected req frame timers hm hnone =>
      rw [hnone] at hflow
      cases hflow
    | agreed req protocol set flow frame timers hm hnone hnew hsetup =>
      rw [hnone] at hflow
      cases hflow
    | unknown due timers hm hreq hest hid => exact ⟨h.protocol, h.iso20Set, h.flow⟩
    | accepted flow flow' due phase timers hreq hid hflow haccept hsetup =>
      exact ⟨h.protocol, h.iso20Set, rfl⟩
    | refused flow error event due overdue timers hreq hid hflow haccept hevent =>
      exact ⟨h.protocol, h.iso20Set, h.flow⟩
  | spoiled hflow => exact ⟨h.protocol, h.iso20Set, hkept hflow⟩
  | answered response o frame timers howed hflow hsetup =>
    exact ⟨h.protocol, h.iso20Set, hkept hflow⟩
  | ended response o frame why hopen howed hflow hwhy =>
    exact ⟨h.protocol, h.iso20Set, hkept hflow⟩

theorem Secc.Holds.steps {s s' : Secc} {acts : List Act} {p : Protocol} {set : Option Iso20Set}
    (h : s.Holds p set) (hsteps : Steps Step s acts s') : s'.Holds p set :=
  hsteps.invariant (g := []) (I := fun _ t => Secc.Holds t p set)
    (fun _ _ _ _ ht hstep => ht.step hstep) h

/-- Both hold the same, or both have closed and hold nothing. -/
inductive Decided (vehicle : EvccConfig) (station : SeccConfig) (log : List Evcc.Act)
    (evs : List Secc.Event) (e : Evcc) (s : Secc) : Prop where
  | agreed (p : Protocol) (set : Option Iso20Set) (he : e.Holds p set) (hs : s.Holds p set)
      (hcommon : Common vehicle station)
  | rejected (he : e.closed = true) (hnone : e.conn.protocol = none) (hs : s.closed = true)
      (hlog : .event (.closed .noCommonProtocol) ∈ log)
      (hevs : .closed .noCommonProtocol ∈ evs) (hcommon : ¬ Common vehicle station)

section Link

variable {codec : Codec} {vehicle : EvccConfig} {station : SeccConfig} {log : List Evcc.Act}
  {evs : List Secc.Event}

theorem Opened.decided {e : Evcc} {s : Secc} (h : Opened vehicle station log evs e s) :
    Decided vehicle station log evs e s := by
  have hiff := isSome_agreement vehicle station
  cases h with
  | rejected hlog hevs he hs hnone =>
    have hcommon : ¬ Common vehicle station := by
      intro hcommon
      have hsome := hiff.mpr hcommon
      rw [hnone] at hsome
      cases hsome
    rw [he, hs, hlog, hevs]
    refine .rejected rfl rfl rfl ?_ ?_ hcommon
    · exact List.mem_cons_of_mem _ (List.mem_singleton_self _)
    · exact List.mem_singleton_self _
  | @agreed a _ _ hlog hevs he hs hsome hnew hnew' =>
    rw [he, hs]
    exact .agreed a.protocol a.iso20Set ⟨rfl, rfl, rfl⟩ ⟨rfl, rfl, rfl⟩
      (hiff.mp (by rw [hsome]; rfl))

theorem Decided.vehicleReads {s : Secc} (e : Evcc) (now : Instant) (data : List UInt8)
    (h : Decided vehicle station log evs e.core s) :
    Decided vehicle station (log ++ e.logs codec (.handleInput now data)) evs
      (e.call codec (.handleInput now data)).core s := by
  cases h with
  | agreed p set he hs hcommon =>
    have he : e.Holds p set := ⟨he.protocol, he.iso20Set, he.flow⟩
    have hkept := he.handleInput codec now data
    exact .agreed p set ⟨hkept.protocol, hkept.iso20Set, hkept.flow⟩ hs hcommon
  | rejected he hnone hs hlog hevs hcommon =>
    have hread : e.handleInput codec now data = (.ok (), e) := by
      unfold Evcc.handleInput
      exact if_pos he
    rw [show e.call codec (.handleInput now data) = e from congrArg Prod.snd hread]
    exact .rejected he hnone hs (List.mem_append_left _ hlog) hevs hcommon

/-- Whatever else the station's reading or answering does. -/
theorem Decided.stationCalls {e : Evcc} {c : Secc.Call} (s : Secc)
    (hsteps : ∃ acts, Steps Secc.Step s acts (s.call codec c))
    (h : Decided vehicle station log evs e s.core) :
    Decided vehicle station log (evs ++ s.emits codec c) e (s.call codec c).core := by
  cases h with
  | agreed p set he hs hcommon =>
    obtain ⟨acts, hsteps⟩ := hsteps
    have hs : s.Holds p set := ⟨hs.protocol, hs.iso20Set, hs.flow⟩
    have hkept := hs.steps hsteps
    exact .agreed p set he ⟨hkept.protocol, hkept.iso20Set, hkept.flow⟩ hcommon
  | rejected he hnone hs hlog hevs hcommon =>
    have hs : s.closed = true := hs
    obtain ⟨-, hclosed⟩ := Secc.emits_of_closed codec c hs
    exact .rejected he hnone hclosed hlog (List.mem_append_left _ hevs) hcommon

/-- Opening or decided, the link keeps it. -/
theorem keeps_handshake (hcodec : codec.Lossless) (hdelivers : Deliverable codec vehicle station)
    (answers : List Secc.Call → Message → Prop) :
    Link.Keeps codec vehicle station answers fun log evs e s u d =>
      Opening codec vehicle station log evs e s u d ∨ Decided vehicle station log evs e s where
  start e h hidle hflow hopen hframes := by
    -- before the answer both sides are still opening
    rcases h with h | h
    · exact .inl (h.start e hidle hframes)
    · cases h with
      | agreed p set he hs hcommon =>
        have hsome : e.flow.isSome = true := he.flow
        rw [hflow] at hsome
        cases hsome
      | rejected he hnone hs hlog hevs hcommon =>
        have hclosed : e.closed = true := he
        rw [hopen] at hclosed
        cases hclosed
  request e m h hopen hidle hreq hflow haccept hframes := by
    rcases h with h | h
    · have hnone : e.flow = none := h.facts.flow
      rw [hflow] at hnone
      cases hnone
    · cases h with
      | agreed p set he hs hcommon =>
        exact .inr (.agreed p set ⟨he.protocol, he.iso20Set, rfl⟩ hs hcommon)
      | rejected he hnone hs hlog hevs hcommon =>
        have hclosed : e.closed = true := he
        rw [hopen] at hclosed
        cases hclosed
  -- a station that answers has decided
  respond ss now response h howed _ := by
    rcases h with h | h
    · exact absurd h.facts.outstanding howed
    · rw [Secc.emitted_concat, Secc.after_concat]
      refine .inr (h.stationCalls _ ?_)
      obtain ⟨acts, hsteps, -⟩ :=
        Secc.steps_respond codec (Secc.after codec station ss) now response
      exact ⟨acts, hsteps⟩
  vehicleReads e now data h := by
    rcases h with h | h
    · rcases h.vehicleReads hcodec e now data with hopening | ⟨hopened, -, -⟩
      · exact .inl hopening
      · exact .inr hopened.decided
    · exact .inr (h.vehicleReads e now data)
  stationReads s now data h := by
    rcases h with h | h
    · exact .inl (h.stationReads hcodec hdelivers s now data)
    · refine .inr (h.stationCalls s ?_)
      obtain ⟨acts, hsteps, -⟩ := Secc.steps_handleInput codec s now data
      exact ⟨acts, hsteps⟩

end Link

/-- Both sides hold one generation and one message set. -/
def Agreed (e : Evcc) (s : Secc) : Prop :=
  (∃ p, e.conn.protocol = some p ∧ s.conn.protocol = some p) ∧ e.iso20Set = s.iso20Set

/-- Both sides have closed for want of a protocol. -/
structure Rejected (codec : Codec) (vehicle : EvccConfig) (station : SeccConfig)
    (vs : List Evcc.Call) (ss : List Secc.Call) : Prop where
  vehicle : (Evcc.after codec vehicle vs).closed = true
    ∧ .event (.closed .noCommonProtocol) ∈ Evcc.history codec vehicle vs
  station : (Secc.after codec station ss).closed = true
    ∧ .closed .noCommonProtocol ∈ Secc.emitted codec station ss

/-- **The handshake ends in agreement, or in none on both sides.** However the link is run, once the
vehicle has sent its offer and read the answer: and it is agreement exactly when the two are
configured for a generation in common, with a message set in common for -20. -/
theorem handshake_agreement (codec : Codec) (hcodec : codec.Lossless) (vehicle : EvccConfig)
    (station : SeccConfig) (hdelivers : Deliverable codec vehicle station)
    (answers : List Secc.Call → Message → Prop) (vs : List Evcc.Call) (ss : List Secc.Call)
    (up down : List UInt8) (h : Link codec vehicle station answers vs ss up down)
    (hstarted : ∃ req, .sent (.appProtocolReq req) ∈ Evcc.history codec vehicle vs)
    (hread : (Evcc.after codec vehicle vs).outstanding ≠ some "supportedAppProtocolReq") :
    (Agreed (Evcc.after codec vehicle vs) (Secc.after codec station ss)
        ∨ Rejected codec vehicle station vs ss)
      ∧ (Agreed (Evcc.after codec vehicle vs) (Secc.after codec station ss)
        ↔ Common vehicle station) := by
  have hinvariant := h.invariant (keeps_handshake hcodec hdelivers answers)
    (.inl (.fresh rfl rfl rfl rfl))
  generalize (Secc.after codec station ss).conn.rx ++ up ++ (Evcc.after codec vehicle vs).conn.tx
    = u, (Evcc.after codec vehicle vs).conn.rx ++ down ++ (Secc.after codec station ss).conn.tx
    = d at hinvariant
  have howed : (Evcc.after codec vehicle vs).core ≠ Evcc.offering vehicle :=
    fun he => hread (congrArg Evcc.outstanding he)
  rcases hinvariant with hopening | hdecided
  -- the answer has been read, so the opening is over
  · cases hopening with
    | fresh hlog hevs he hs =>
      obtain ⟨req, hsent⟩ := hstarted
      rw [hlog] at hsent
      cases hsent
    | offered hlog hevs he hs h => exact absurd he howed
    | rejected hlog hevs he hs hnone h => exact absurd he howed
    | accepted hlog hevs he hs hsome hnew h => exact absurd he howed
  -- and what was decided is one of the two
  · cases hdecided with
    | agreed p set he hs hcommon =>
      have hagreed : Agreed (Evcc.after codec vehicle vs) (Secc.after codec station ss) :=
        ⟨⟨p, he.protocol, hs.protocol⟩, he.iso20Set.trans hs.iso20Set.symm⟩
      exact ⟨.inl hagreed, iff_of_true hagreed hcommon⟩
    | rejected he hnone hs hlog hevs hcommon =>
      have hnot : ¬ Agreed (Evcc.after codec vehicle vs) (Secc.after codec station ss) := by
        rintro ⟨⟨p, hp, -⟩, -⟩
        have hnone : (Evcc.after codec vehicle vs).conn.protocol = none := hnone
        rw [hnone] at hp
        cases hp
      exact ⟨.inr ⟨⟨he, hlog⟩, ⟨hs, hevs⟩⟩, iff_of_false hnot hcommon⟩

/-! ### The vectors

The recorded handshake, across the link and in one piece each way. -/

/-- The offer of a vehicle that speaks -2, and the answer, across the link. -/
theorem link_golden (answers : List Secc.Call → Message → Prop) :
    Link Message.Golden.exchange Evcc.goldenVehicle Secc.goldenConfig answers
      [.start (.fromMillis 0), .takeTransmit,
       .handleInput (.fromMillis 2)
         (Message.Golden.frame .exiEncodedV2gMessage [0x80, 0x40, 0x00, 0x40])]
      [.handleInput (.fromMillis 1)
         (Message.Golden.frame .exiEncodedV2gMessage Message.Golden.reqIso2), .takeTransmit]
      [] [] := by
  have hstart : Link Message.Golden.exchange Evcc.goldenVehicle Secc.goldenConfig answers
      [.start (.fromMillis 0)] [] [] [] := Link.new.vehicleCalls (.start (.fromMillis 0)) trivial
  have hoffered := hstart.forth (.fromMillis 1)
    (Message.Golden.frame .exiEncodedV2gMessage Message.Golden.reqIso2) (by decide +kernel)
  exact hoffered.back (.fromMillis 2)
    (Message.Golden.frame .exiEncodedV2gMessage [0x80, 0x40, 0x00, 0x40]) (by decide +kernel)

theorem deliverable_golden :
    Deliverable Message.Golden.exchange Evcc.goldenVehicle Secc.goldenConfig := by
  refine ⟨fun h => h.fits, fun _ => ?_⟩
  have hencodes : Message.Golden.exchange.toVec
      (.appProtocolRes (Secc.answerTo Secc.goldenConfig (Evcc.offered Evcc.goldenVehicle)))
      = .ok [0x80, 0x40, 0x00, 0x40] := by
    decide +kernel
  have hframes :
      ∃ frame, Frames Message.Golden.exchange Secc.goldenConfig.maxPayloadLen _ frame _ :=
    Connection.frames_of_encodes hencodes (by decide) (by decide)
  obtain ⟨frame, hframes⟩ := hframes
  exact ⟨frame, _, hframes, by decide⟩

/-- They agree on -2. -/
theorem handshake_agreement_golden :
    Agreed
      (Evcc.after Message.Golden.exchange Evcc.goldenVehicle
        [.start (.fromMillis 0), .takeTransmit,
         .handleInput (.fromMillis 2)
           (Message.Golden.frame .exiEncodedV2gMessage [0x80, 0x40, 0x00, 0x40])])
      (Secc.after Message.Golden.exchange Secc.goldenConfig
        [.handleInput (.fromMillis 1)
           (Message.Golden.frame .exiEncodedV2gMessage Message.Golden.reqIso2), .takeTransmit]) :=
  (handshake_agreement Message.Golden.exchange Message.Golden.lossless_exchange Evcc.goldenVehicle
    Secc.goldenConfig deliverable_golden (fun _ _ => True) _ _ [] [] (link_golden _)
    ⟨⟨[Message.Golden.iso2Entry]⟩, by decide +kernel⟩ (by decide +kernel)).2.mpr
    ⟨.iso2, rfl, by decide, by decide, fun h => by cases h⟩

end Iso15118
