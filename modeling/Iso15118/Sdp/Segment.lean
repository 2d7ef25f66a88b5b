import Iso15118.Sdp.Answer

/-!
# Discovery over a segment

A vehicle and a station on one segment that carries datagrams and promises nothing: each of them may
be lost, or arrive late, more than once and in any order. There is nobody else.

* **`Segment`**, **`Segment.step`** — the two sides and what was sent; a delivery is of anything
  that was ever sent;
* **`Segment.Agreed`** — what the two agree on at any time;
* **`Settled`** — the search is over with an answer, and stays so until the application starts
  another;
* **`Segment.discovery_agreement`** — what the vehicle reports in any run is the station's answer to
  what the vehicle asked for, and one answer that arrives is enough to end the search.

Loss, delay, repetition and another order need no rules of their own: what was sent is kept, and a
delivery may be of anything in it, at any time and any number of times. A datagram that is never
delivered is lost. The invariant then only has to say of what was sent that each datagram is the
vehicle's one request, or the station's one answer to it.
-/

namespace Iso15118.Sdp

open Iso15118.Lib Iso15118.Session

/-- A station: its endpoint, what it will do about security, and how it frames its answers. -/
structure Station where
  address : Address
  port : UInt16
  tls : TlsPolicy
  wireless : Bool
  capacity : Nat

/-- The datagrams a station sends for one it receives: its answer, where it can read a request. -/
def Station.reply (station : Station) (datagram : List UInt8) : List (List UInt8) :=
  match Request.fromFrame datagram with
  | .error _ => []
  | .ok request =>
      match (Response.answering request station.address station.port station.tls).writeFrame
          station.wireless station.capacity with
      | .error _ => []
      | .ok frame => [frame]

/-- The vehicle, and what it and the station sent so far. -/
structure Segment where
  vehicle : Discovery
  asked : List (List UInt8)
  answered : List (List UInt8)

/-- What may happen: the application makes a call, the station hears a datagram that was multicast,
or the vehicle hears one that the station sent. -/
inductive Move where
  | start (now : Instant)
  | timeout (now : Instant)
  | pollTransmit
  | pollEvent
  | request (i : Nat)
  | answer (now : Instant) (i : Nat)

namespace Segment

/-- The call of the vehicle in a move. -/
def callOf (g : Segment) : Move → Option Discovery.Call
  | .start now => some (.start now)
  | .timeout now => some (.timeout now)
  | .pollTransmit => some .pollTransmit
  | .pollEvent => some .pollEvent
  | .request _ => none
  | .answer now i => (g.answered[i]?).map fun frame => .datagram now frame

/-- What a move puts on the segment from the vehicle. -/
def multicasts (g : Segment) : Move → List (List UInt8)
  | .pollTransmit => g.vehicle.pollTransmit.1.toList
  | _ => []

/-- What a move puts on the segment from the station. -/
def replies (station : Station) (g : Segment) : Move → List (List UInt8)
  | .request i => ((g.asked[i]?).map station.reply).getD []
  | _ => []

/-- The segment after a move. -/
def step (station : Station) (g : Segment) (m : Move) : Segment where
  vehicle := ((g.callOf m).map g.vehicle.call).getD g.vehicle
  asked := g.asked ++ g.multicasts m
  answered := g.answered ++ g.replies station m

/-- The event the application polls in a move. -/
def polled (g : Segment) : Move → List Event
  | .pollEvent => g.vehicle.pollEvent.1.toList
  | _ => []

/-- A vehicle that has asked for nothing yet. -/
def new (vehicle : Discovery) : Segment := ⟨vehicle, [], []⟩

end Segment

namespace Station

/-- What the station answers a request with. -/
def answerTo (station : Station) (request : Request) : Response :=
  .answering request station.address station.port station.tls

/-- The station is one for a vehicle that asks so: it has TLS if that is asked for, and it is on the
link if it has to be. -/
def Suits (station : Station) (request : Request) (allowOffLink : Bool) : Prop :=
  ¬ (request.security = .tls ∧ station.tls = .unsupported)
    ∧ (allowOffLink = true ∨ (station.answerTo request).isLinkLocal = true)

theorem usable_iff_suits {station : Station} {request : Request} {allowOffLink : Bool} :
    Usable request allowOffLink (station.answerTo request)
      ↔ station.Suits request allowOffLink := by
  rw [Response.usable_iff, Suits, ← Response.satisfies_answering request station.address
    station.port station.tls]
  rfl

/-- A request is answered, if the station has room for the answer. -/
theorem reply_of_request {station : Station} {request : Request} {datagram : List UInt8}
    (h : Request.fromFrame datagram = .ok request) (hroom : 28 ≤ station.capacity) :
    ∃ frame, station.reply datagram = [frame] := by
  have hlen : (station.answerTo request).toPayload.length = 20 := by
    simp [Response.toPayload, u16ToBe]
  have hwrite : ∃ frame, (station.answerTo request).writeFrame station.wireless station.capacity
      = .ok frame := by
    unfold Response.writeFrame V2gtp.writeFrame
    rw [if_neg (by omega), if_neg (by rw [hlen]; exact Nat.not_lt_of_le hroom)]
    exact ⟨_, rfl⟩
  obtain ⟨frame, hframe⟩ := hwrite
  refine ⟨frame, ?_⟩
  unfold answerTo at hframe
  rw [reply, h]
  dsimp only
  rw [hframe]

/-- What the station sends for a request is its answer. -/
theorem of_mem_reply {station : Station} {request : Request} {datagram frame : List UInt8}
    (h : Request.fromFrame datagram = .ok request) (hframe : frame ∈ station.reply datagram) :
    (station.answerTo request).writeFrame station.wireless station.capacity = .ok frame := by
  rw [reply, h] at hframe
  dsimp only at hframe
  unfold answerTo
  split at hframe
  · cases hframe
  · next frame' hwrite =>
    rw [List.mem_singleton.mp hframe]
    exact hwrite

end Station

/-! ## What the two agree on

The invariant of the segment: every datagram on it is the request or the answer to it. A delivery
is of one of these, so nothing else can be heard. -/

section Agreement

variable (station : Station) (request : Request) (allowOffLink : Bool)

/-- What the vehicle may report: that it found the station where the station is, that it must not
act on what the station answers, or that it has waited long enough. -/
def Reports : Event → Prop
  | .found response => response = station.answerTo request ∧ station.Suits request allowOffLink
  | .refused response _ =>
      response = station.answerTo request ∧ ¬ station.Suits request allowOffLink
  | .gaveUp _ => True
  | .conflict _ _ => False

/-- The vehicle's side, at any time: it asks for the same thing, and has heard of nobody else. -/
structure Agreed (v : Discovery) : Prop where
  asks : v.request = request
  allows : v.allowOffLink = allowOffLink
  pending : ∀ frame ∈ v.pending, Request.fromFrame frame = .ok request
  accepted : ∀ r ∈ v.accepted, r = station.answerTo request
  seeking : v.done = false → v.accepted = none
  outcome : ∀ e ∈ v.outcome, Reports station request allowOffLink e
  notice : ∀ e ∈ v.notice, Reports station request allowOffLink e

/-- The search is over with this answer: no request is waiting to be sent, and none will be, for
there is no timer. -/
structure Settled (response : Response) (v : Discovery) : Prop where
  done : v.done = true
  deadline : v.deadline = none
  pending : v.pending = none
  accepted : v.accepted = some response

/-- Both sides: what was sent is the request, and the answer to it. -/
structure Segment.Agreed (g : Segment) : Prop where
  vehicle : Sdp.Agreed station request allowOffLink g.vehicle
  asked : ∀ frame ∈ g.asked, Request.fromFrame frame = .ok request
  answered : ∀ frame ∈ g.answered,
    (station.answerTo request).writeFrame station.wireless station.capacity = .ok frame

end Agreement

section Steps

variable {station : Station} {request : Request} {allowOffLink : Bool} {v : Discovery}

namespace Agreed

theorem send (h : Agreed station request allowOffLink v) (now : Instant) :
    Agreed station request allowOffLink (v.send now) := by
  unfold Discovery.send
  cases hframe : v.request.writeFrame v.wireless (V2gtp.headerLen + requestLen) with
  | error e => exact ⟨h.asks, h.allows, h.pending, h.accepted, h.seeking, h.outcome, h.notice⟩
  | ok frame =>
    refine ⟨h.asks, h.allows, fun frame' hin => ?_, h.accepted, h.seeking, h.outcome, h.notice⟩
    cases hin
    rw [← h.asks]
    exact Request.fromFrame_writeFrame hframe

theorem forget (h : Agreed station request allowOffLink v) : Agreed station request allowOffLink
    { v with attempts := 0, done := false, outcome := none, notice := none, accepted := none } :=
  ⟨h.asks, h.allows, h.pending, (fun _ hr => by cases hr), fun _ => rfl,
    (fun _ he => by cases he), (fun _ he => by cases he)⟩

theorem start (h : Agreed station request allowOffLink v) (now : Instant) :
    Agreed station request allowOffLink (v.start now) :=
  h.forget.send now

theorem timeout (h : Agreed station request allowOffLink v) (now : Instant) :
    Agreed station request allowOffLink (v.handleTimeout now) := by
  unfold Discovery.handleTimeout
  split
  · exact h
  · dsimp only
    split
    · refine ⟨h.asks, h.allows, h.pending, h.accepted, (fun hdone => by cases hdone),
        fun e he => ?_, h.notice⟩
      cases he
      exact trivial
    · exact send
        ⟨h.asks, h.allows, h.pending, h.accepted, h.seeking, h.outcome, h.notice⟩ now

theorem pollTransmit (h : Agreed station request allowOffLink v) :
    Agreed station request allowOffLink v.pollTransmit.2 :=
  ⟨h.asks, h.allows, (fun _ hframe => by cases hframe), h.accepted, h.seeking, h.outcome,
    h.notice⟩

theorem pollEvent (h : Agreed station request allowOffLink v) :
    Agreed station request allowOffLink v.pollEvent.2
      ∧ ∀ e ∈ v.pollEvent.1, Reports station request allowOffLink e := by
  unfold Discovery.pollEvent
  cases hnotice : v.notice with
  | some notice =>
    refine ⟨⟨h.asks, h.allows, h.pending, h.accepted, h.seeking, h.outcome,
      fun _ he => (by cases he)⟩, fun e he => ?_⟩
    cases he
    exact h.notice notice hnotice
  | none =>
    exact ⟨⟨h.asks, h.allows, h.pending, h.accepted, h.seeking, (fun _ he => by cases he),
      (fun _ he => by cases he)⟩, h.outcome⟩

theorem refusal_iff (h : Agreed station request allowOffLink v) :
    v.refusal (station.answerTo request) = none ↔ station.Suits request allowOffLink := by
  rw [Discovery.refusal_eq_none_iff, h.asks, h.allows, Station.usable_iff_suits]

/-- The vehicle hears the station. -/
theorem answered (h : Agreed station request allowOffLink v) :
    Agreed station request allowOffLink (v.answered (station.answerTo request)) := by
  have husable := h.refusal_iff
  unfold Discovery.answered
  split
  · next accepted haccepted =>
    -- an answer taken before was this one
    rw [if_neg fun hother => hother.1 (h.accepted accepted haccepted).symm]
    exact h
  · split
    · exact h
    · split
      · next reason hrefusal =>
        refine ⟨h.asks, h.allows, h.pending, h.accepted, h.seeking, h.outcome, fun e he => ?_⟩
        cases he
        refine ⟨rfl, fun hsuits => ?_⟩
        rw [husable.mpr hsuits] at hrefusal
        cases hrefusal
      · next hrefusal =>
        refine ⟨h.asks, h.allows, (fun _ hframe => by cases hframe), fun r hr => ?_,
          (fun hdone => by cases hdone), fun e he => ?_, h.notice⟩
        · cases hr
          rfl
        · cases he
          exact ⟨rfl, husable.mp hrefusal⟩

/-- What an answer comes to while the vehicle is looking for one: the end of the search, or a notice
and nothing else. -/
theorem answered_seeking (h : Agreed station request allowOffLink v) (hseeking : v.done = false) :
    (station.Suits request allowOffLink →
        Settled (station.answerTo request) (v.answered (station.answerTo request))
          ∧ (v.answered (station.answerTo request)).outcome
            = some (.found (station.answerTo request)))
      ∧ (¬ station.Suits request allowOffLink → ∃ reason,
          v.answered (station.answerTo request)
            = { v with notice := some (.refused (station.answerTo request) reason) }) := by
  unfold Discovery.answered
  rw [h.seeking hseeking]
  dsimp only
  rw [hseeking, if_neg Bool.false_ne_true]
  cases hrefusal : v.refusal (station.answerTo request) with
  | none =>
    exact ⟨fun _ => ⟨⟨rfl, rfl, rfl, rfl⟩, rfl⟩,
      fun hnot => absurd (h.refusal_iff.mp hrefusal) hnot⟩
  | some reason =>
    refine ⟨fun hsuits => ?_, fun _ => ⟨reason, rfl⟩⟩
    rw [h.refusal_iff.mpr hsuits] at hrefusal
    cases hrefusal

end Agreed

namespace Segment

variable {g : Segment}

theorem vehicle_answer_some {now : Instant} {i : Nat} {frame : List UInt8}
    (hi : g.answered[i]? = some frame) : (g.step station (.answer now i)).vehicle
      = (g.vehicle.handleDatagram now frame).2 := by
  have hcall : g.callOf (.answer now i) = some (.datagram now frame) := by
    show (g.answered[i]?).map _ = _
    rw [hi]
    rfl
  show ((g.callOf (.answer now i)).map g.vehicle.call).getD g.vehicle = _
  rw [hcall]
  rfl

/-- A delivery is of the answer, and of nothing if the vehicle cannot read it. -/
theorem vehicle_answer (h : g.Agreed station request allowOffLink) (now : Instant) (i : Nat) :
    (g.step station (.answer now i)).vehicle = g.vehicle
      ∨ (g.step station (.answer now i)).vehicle
          = g.vehicle.answered (station.answerTo request) := by
  cases hi : g.answered[i]? with
  | none =>
    have hcall : g.callOf (.answer now i) = none := by
      show (g.answered[i]?).map _ = _
      rw [hi]
      rfl
    left
    show ((g.callOf (.answer now i)).map g.vehicle.call).getD g.vehicle = _
    rw [hcall]
    rfl
  | some frame =>
    rw [vehicle_answer_some hi]
    have hread := (Response.fromFrame_writeFrame (h.answered frame (List.mem_of_getElem? hi))).1
    unfold Discovery.handleDatagram
    cases hframe : Response.fromFrame frame with
    | error e => exact .inl rfl
    | ok r => exact .inr (by rw [hread r hframe])

/-- A delivery is of the answer, if something can be at the station's endpoint. -/
theorem vehicle_delivered (h : g.Agreed station request allowOffLink)
    (hc : (station.answerTo request).Connectable) (now : Instant) {i : Nat}
    (hi : i < g.answered.length) : (g.step station (.answer now i)).vehicle
      = g.vehicle.answered (station.answerTo request) := by
  have hat := List.getElem?_eq_getElem hi
  have hread := (Response.fromFrame_writeFrame (h.answered _ (List.getElem_mem hi))).2 hc
  rw [vehicle_answer_some hat]
  unfold Discovery.handleDatagram
  rw [hread]

/-- Every move keeps the two sides agreed, and reports nothing but what the station answers. -/
theorem agreed_step (h : g.Agreed station request allowOffLink) (m : Move) :
    (g.step station m).Agreed station request allowOffLink
      ∧ ∀ e ∈ g.polled m, Reports station request allowOffLink e := by
  have hasked : ∀ frame ∈ g.asked ++ g.multicasts m, Request.fromFrame frame = .ok request := by
    refine List.forall_mem_append.mpr ⟨h.asked, fun frame hframe => ?_⟩
    cases m with
    | pollTransmit => exact h.vehicle.pending frame (Option.mem_toList.mp hframe)
    | _ => cases hframe
  have hanswered : ∀ frame ∈ g.answered ++ g.replies station m,
      (station.answerTo request).writeFrame station.wireless station.capacity = .ok frame := by
    refine List.forall_mem_append.mpr ⟨h.answered, fun frame hframe => ?_⟩
    cases m with
    | request i =>
      have hframe : frame ∈ ((g.asked[i]?).map station.reply).getD [] := hframe
      cases hi : g.asked[i]? with
      | none =>
        rw [hi] at hframe
        cases hframe
      | some datagram =>
        rw [hi] at hframe
        exact Station.of_mem_reply (h.asked datagram (List.mem_of_getElem? hi)) hframe
    | _ => cases hframe
  cases m with
  | start now => exact ⟨⟨h.vehicle.start now, hasked, hanswered⟩, fun _ he => (by cases he)⟩
  | timeout now => exact ⟨⟨h.vehicle.timeout now, hasked, hanswered⟩, fun _ he => (by cases he)⟩
  | pollTransmit => exact ⟨⟨h.vehicle.pollTransmit, hasked, hanswered⟩, fun _ he => (by cases he)⟩
  | pollEvent =>
    obtain ⟨hvehicle, hpolled⟩ := h.vehicle.pollEvent
    exact ⟨⟨hvehicle, hasked, hanswered⟩, fun e he => hpolled e (Option.mem_toList.mp he)⟩
  | request i => exact ⟨⟨h.vehicle, hasked, hanswered⟩, fun _ he => (by cases he)⟩
  | answer now i =>
    refine ⟨⟨?_, hasked, hanswered⟩, fun _ he => (by cases he)⟩
    rcases vehicle_answer h now i with heq | heq
    · rw [heq]
      exact h.vehicle
    · rw [heq]
      exact h.vehicle.answered

theorem agreed_new (station : Station) (request : Request) (wireless allowOffLink : Bool)
    (interval : Millis) (maxAttempts : UInt32) :
    (new (Discovery.configured request wireless allowOffLink interval maxAttempts)).Agreed station
      request allowOffLink where
  vehicle := ⟨rfl, rfl, (fun _ hframe => by cases hframe), (fun _ hr => by cases hr), fun _ => rfl,
    (fun _ he => by cases he), (fun _ he => by cases he)⟩
  asked := fun _ hframe => by cases hframe
  answered := fun _ hframe => by cases hframe

/-- What one move keeps, a run keeps. -/
theorem agreed_run (h : g.Agreed station request allowOffLink) (moves : List Move) :
    (run (step station) g moves).Agreed station request allowOffLink :=
  run_of_invariant (I := fun g : Segment => g.Agreed station request allowOffLink)
    (A := fun _ => True) (fun _ m h _ => (agreed_step h m).1) h fun _ _ => trivial

/-- Nothing but a new start disturbs a search that is over: an alarm comes too late, and the answer
that arrives again is the one that was taken. -/
theorem settled_step (hsettled : Settled (station.answerTo request) g.vehicle)
    (h : g.Agreed station request allowOffLink) {m : Move} (hm : ∀ now, m ≠ .start now) :
    Settled (station.answerTo request) (g.step station m).vehicle
      ∧ (g.step station m).asked = g.asked := by
  cases m with
  | start now => exact absurd rfl (hm now)
  -- a search that is done has no deadline
  | timeout now =>
    have hlate : g.vehicle.handleTimeout now = g.vehicle := if_pos (.inl hsettled.done)
    refine ⟨?_, List.append_nil _⟩
    show Settled _ (g.vehicle.handleTimeout now)
    rw [hlate]
    exact hsettled
  | pollTransmit =>
    refine ⟨⟨hsettled.done, hsettled.deadline, rfl, hsettled.accepted⟩, ?_⟩
    show g.asked ++ g.vehicle.pending.toList = g.asked
    rw [hsettled.pending]
    exact List.append_nil _
  | pollEvent =>
    refine ⟨?_, List.append_nil _⟩
    show Settled _ g.vehicle.pollEvent.2
    unfold Discovery.pollEvent
    split
    · exact ⟨hsettled.done, hsettled.deadline, hsettled.pending, hsettled.accepted⟩
    · exact ⟨hsettled.done, hsettled.deadline, hsettled.pending, hsettled.accepted⟩
  | request i => exact ⟨hsettled, List.append_nil _⟩
  -- the same answer again changes nothing
  | answer now i =>
    refine ⟨?_, List.append_nil _⟩
    have hagain : g.vehicle.answered (station.answerTo request) = g.vehicle := by
      unfold Discovery.answered
      rw [hsettled.accepted]
      exact if_neg fun hother => hother.1 rfl
    rcases vehicle_answer h now i with heq | heq
    · rw [heq]
      exact hsettled
    · rw [heq, hagain]
      exact hsettled

/-- A search that is over stays so, and nothing more is asked, until it is started again. -/
theorem settled_run (hsettled : Settled (station.answerTo request) g.vehicle)
    (h : g.Agreed station request allowOffLink) {moves : List Move}
    (hmoves : ∀ m ∈ moves, ∀ now, m ≠ .start now) :
    Settled (station.answerTo request) (run (step station) g moves).vehicle
      ∧ (run (step station) g moves).asked = g.asked := by
  have hrun : (run (step station) g moves).Agreed station request allowOffLink
      ∧ Settled (station.answerTo request) (run (step station) g moves).vehicle
      ∧ (run (step station) g moves).asked = g.asked := by
    refine run_of_invariant (I := fun g' : Segment => g'.Agreed station request allowOffLink
      ∧ Settled (station.answerTo request) g'.vehicle ∧ g'.asked = g.asked)
      (A := fun m => ∀ now, m ≠ .start now) (fun g' m hg' hm => ?_) ⟨h, hsettled, rfl⟩ hmoves
    obtain ⟨hsettled', hasked⟩ := settled_step hg'.2.1 hg'.1 hm
    exact ⟨(agreed_step hg'.1 m).1, hsettled', hasked.trans hg'.2.2⟩
  exact hrun.2

/-- A request that was sent is answered when it arrives. -/
theorem replied (h : g.Agreed station request allowOffLink) (hroom : 28 ≤ station.capacity)
    {i : Nat} (hi : i < g.asked.length) : ∃ frame, g.replies station (.request i) = [frame] := by
  obtain ⟨frame, hframe⟩ := Station.reply_of_request (h.asked _ (List.getElem_mem hi)) hroom
  refine ⟨frame, ?_⟩
  show ((g.asked[i]?).map station.reply).getD [] = _
  rw [List.getElem?_eq_getElem hi]
  exact hframe

/-- **Discovery agrees.** In any run of a vehicle and a station over a segment that loses, delays,
repeats and reorders what it carries, all the vehicle reports is that it found the station where the
station is and as it asked for it, or that it must not act on what the station answers, or that it
has waited long enough; a conflict it never reports. And one exchange that arrives is enough: every
request is answered, if the station has room for the answer, and an answer with an endpoint that can
be connected to ends the search if the station suits the vehicle: whatever happens then, up to a new
start, no more is asked. If it does not suit, nothing but the notice changes. -/
theorem discovery_agreement (station : Station) (request : Request) (wireless allowOffLink : Bool)
    (interval : Millis) (maxAttempts : UInt32) (moves : List Move) :
    let start := new (Discovery.configured request wireless allowOffLink interval maxAttempts)
    let reached := run (step station) start moves
    (∀ e ∈ outputs (step station) polled start moves, Reports station request allowOffLink e)
      ∧ (28 ≤ station.capacity → ∀ i < reached.asked.length,
          ∃ frame, reached.replies station (.request i) = [frame])
      ∧ ((station.answerTo request).Connectable → reached.vehicle.done = false →
          ∀ now, ∀ i < reached.answered.length,
            (station.Suits request allowOffLink →
              (reached.step station (.answer now i)).vehicle.outcome
                = some (.found (station.answerTo request))
              ∧ ∀ more : List Move, (∀ m ∈ more, ∀ t, m ≠ .start t) →
                Settled (station.answerTo request)
                  (run (step station) (reached.step station (.answer now i)) more).vehicle
                ∧ (run (step station) (reached.step station (.answer now i)) more).asked
                  = reached.asked)
            ∧ (¬ station.Suits request allowOffLink → ∃ reason,
              (reached.step station (.answer now i)).vehicle
                = { reached.vehicle with
                    notice := some (.refused (station.answerTo request) reason) })) := by
  intro start reached
  have hstart : start.Agreed station request allowOffLink :=
    agreed_new station request wireless allowOffLink interval maxAttempts
  have hreached : reached.Agreed station request allowOffLink := agreed_run hstart moves
  refine ⟨?_, fun hroom i hi => replied hreached hroom hi, fun hc hseeking now i hi => ?_⟩
  -- only what the station says is reported, move by move
  · exact forall_outputs_of_invariant
      (I := fun g : Segment => g.Agreed station request allowOffLink)
      (A := fun _ => True) (fun _ m h _ => (agreed_step h m).1)
      (fun _ m h _ e he => (agreed_step h m).2 e he) hstart fun _ _ => trivial
  -- an answer that is delivered is the station's own
  · have hheard := vehicle_delivered hreached hc now hi
    obtain ⟨hsuits, hunfit⟩ := hreached.vehicle.answered_seeking hseeking
    rw [← hheard] at hsuits hunfit
    refine ⟨fun h => ?_, hunfit⟩
    obtain ⟨hsettled, houtcome⟩ := hsuits h
    -- and what was found is kept by every later move
    refine ⟨houtcome, fun more hmore => ?_⟩
    obtain ⟨hsettled', hasked⟩ := settled_run hsettled (agreed_step hreached _).1 hmore
    exact ⟨hsettled', hasked.trans (List.append_nil _)⟩

end Segment

end Steps

namespace Sample

/-- A link-local station without TLS. -/
def station : Station where
  address := (Discovery.Sample.plain 1).address
  port := 15118
  tls := .unsupported
  wireless := false
  capacity := 28

/-- The request arrives twice, and is answered twice. -/
def asked : List Move := [.start ⟨0⟩, .pollTransmit, .request 0, .request 0]

/-- The second answer arrives first, and the first one afterwards. -/
def reordered : List Move := asked ++ [.answer ⟨5⟩ 1, .pollEvent, .answer ⟨9⟩ 0, .pollEvent]

/-- A vehicle that asks for no TLS. -/
def vehicle : Segment :=
  .new (.configured Request.plain false false Timers.responseTimeout Timers.maxRequests)

end Sample

namespace Segment

/-- The vehicle finds the station, once; the search is over with the answer that comes first,
whatever happens then. -/
theorem discovery_agreement_reordered :
    outputs (step Sample.station) polled Sample.vehicle Sample.reordered
        = [.found (Discovery.Sample.plain 1)]
      ∧ Sample.station.Suits Request.plain false
      ∧ (∃ frame, (run (step Sample.station) Sample.vehicle Sample.asked).replies Sample.station
          (.request 0) = [frame])
      ∧ ∀ more : List Move, (∀ m ∈ more, ∀ t, m ≠ .start t) →
        Settled (Discovery.Sample.plain 1) (run (step Sample.station)
          ((run (step Sample.station) Sample.vehicle Sample.asked).step Sample.station
            (.answer ⟨5⟩ 1)) more).vehicle := by
  have hrun : outputs (step Sample.station) polled Sample.vehicle Sample.reordered
      = [.found (Discovery.Sample.plain 1)] := by decide +kernel
  have hreports := (discovery_agreement Sample.station Request.plain false false
    Timers.responseTimeout Timers.maxRequests Sample.reordered).1
  obtain ⟨-, hreplied, hends⟩ := discovery_agreement Sample.station Request.plain false false
    Timers.responseTimeout Timers.maxRequests Sample.asked
  have hsuits : Sample.station.Suits Request.plain false := by
    refine (hreports (.found (Discovery.Sample.plain 1)) ?_).2
    show _ ∈ outputs (step Sample.station) polled Sample.vehicle Sample.reordered
    rw [hrun]
    exact List.mem_singleton_self _
  have hseeking : (run (step Sample.station) Sample.vehicle Sample.asked).vehicle.done = false := by
    decide +kernel
  have hsent : 1 < (run (step Sample.station) Sample.vehicle Sample.asked).answered.length := by
    decide +kernel
  have hconnectable : (Sample.station.answerTo Request.plain).Connectable := by decide
  refine ⟨hrun, hsuits, hreplied (by decide) 0 (by decide +kernel), fun more hmore => ?_⟩
  exact (((hends hconnectable hseeking ⟨5⟩ 1 hsent).1 hsuits).2 more hmore).1

end Segment

end Iso15118.Sdp
