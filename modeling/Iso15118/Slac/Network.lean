import Iso15118.Lib.Party
import Iso15118.Slac.Station.Bystander
import Iso15118.Slac.Vehicle.Burst

/-!
# One vehicle and its neighbours on one medium

A vehicle is heard by every station whose cable runs beside its own. Here the two engines are put
on one medium, one vehicle and a station for every index, and driven in any order at all. The
medium keeps every frame that was ever written to it; it may deliver any of them, as often as it
likes, to anybody, or never. What it may not do is make one up.

* **`Network`**, **`Network.act`** — the parties and the medium, and one call of one party;
* **`Network.Unforged`** — every frame that is delivered was written;
* **`Network.sent_of_heard`** — so every frame that is delivered was queued by one of the parties.
-/

namespace Iso15118.Slac

open Iso15118.Lib Iso15118.Session

/-- The frames the vehicle's application got to write. -/
def Ev.transmitted (t : Transition Ev Ev.Call) : List Outgoing :=
  match t.call with
  | .pollTransmit => t.before.pollTransmit.1.toList
  | _ => []

structure Network (ι : Type) where
  vehicle : Ev
  station : ι → Evse
  /-- Every frame that was ever written. -/
  medium : List (List UInt8)

namespace Network

/-- A call of one of the parties. -/
inductive Act (ι : Type) where
  | vehicle (c : Ev.Call)
  | station (i : ι) (c : Evse.Call)

variable {ι : Type} [DecidableEq ι]

/-- Nobody has done anything yet. -/
def new (config : EvConfig) (stations : ι → EvseConfig) : Network ι where
  vehicle := Ev.new config
  station i := Evse.new (stations i)
  medium := []

/-- One call, and what it writes to the medium. -/
def act (n : Network ι) : Act ι → Network ι
  | .vehicle c =>
      { n with
        vehicle := n.vehicle.call c
        medium := n.medium
          ++ (Ev.transmitted (taken Ev.call n.vehicle c)).map Outgoing.frame }
  | .station i c =>
      { n with
        station := Function.update n.station i ((n.station i).call c)
        medium := n.medium
          ++ (Evse.transmitted (taken Evse.call (n.station i) c)).map Outgoing.frame }

def history (config : EvConfig) (stations : ι → EvseConfig) (acts : List (Act ι)) :
    List (Transition (Network ι) (Act ι)) :=
  trace act (new config stations) acts

/-- The frame an action delivers. -/
def Act.heard : Act ι → Option (List UInt8)
  | .vehicle (.frame _ raw) => some raw
  | .station _ (.frame _ raw) => some raw
  | _ => none

/-- The medium loses, repeats, reorders and misdelivers frames, but it makes none up. -/
def Unforged (config : EvConfig) (stations : ι → EvseConfig) (acts : List (Act ι)) : Prop :=
  Along (fun _ t => ∀ raw ∈ t.call.heard, raw ∈ t.before.medium) (history config stations acts)

/-! ## The parties

Each action is a call of one party, so each party's own calls are picked out of a run by
`Lib.Party`. -/

/-- The vehicle's call, if the action is one. -/
def Act.ofVehicle : Act ι → Option Ev.Call
  | .vehicle c => some c
  | .station _ _ => none

/-- The call of station `i`, if the action is one. -/
def Act.ofStation (i : ι) : Act ι → Option Evse.Call
  | .vehicle _ => none
  | .station j c => if j = i then some c else none

theorem vehicle_party :
    Party (act : Network ι → Act ι → Network ι) Ev.call Network.vehicle Act.ofVehicle where
  moves n a c hown := by
    cases a with
    | vehicle c' =>
      cases hown
      rfl
    | station j c' => cases hown
  stays n a hown := by
    cases a with
    | vehicle c => cases hown
    | station j c => rfl

theorem station_party (i : ι) :
    Party (act : Network ι → Act ι → Network ι) Evse.call (fun n => n.station i)
      (Act.ofStation i) where
  moves n a c hown := by
    cases a with
    | vehicle c' => cases hown
    | station j c' =>
      obtain ⟨hj, hc⟩ := Option.ite_none_right_eq_some.mp hown
      cases hc
      show Function.update n.station j _ i = _
      rw [hj, Function.update_self]
  stays n a hown := by
    cases a with
    | vehicle c => rfl
    | station j c =>
      have hne : i ≠ j := fun heq => by simp [Act.ofStation, heq] at hown
      show Function.update n.station j _ i = _
      rw [Function.update_of_ne hne]

/-- What the vehicle did in a transition. -/
def vehicleTurn (t : Transition (Network ι) (Act ι)) : Option (Transition Ev Ev.Call) :=
  turn Network.vehicle Act.ofVehicle t

/-- What station `i` did in a transition. -/
def stationTurn (i : ι) (t : Transition (Network ι) (Act ι)) :
    Option (Transition Evse Evse.Call) :=
  turn (fun n => n.station i) (Act.ofStation i) t

/-- The frames the vehicle queued, and below the events it raised. -/
def vehicleFrames (t : Transition (Network ι) (Act ι)) : List Outgoing :=
  (vehicleTurn t).toList.flatMap Ev.queued

def vehicleEvents (t : Transition (Network ι) (Act ι)) : List EvEvent :=
  (vehicleTurn t).toList.flatMap Ev.emitted

/-- The frames station `i` queued, and below the events it raised. -/
def stationFrames (i : ι) (t : Transition (Network ι) (Act ι)) : List Outgoing :=
  (stationTurn i t).toList.flatMap Evse.queued

def stationEvents (i : ι) (t : Transition (Network ι) (Act ι)) : List EvseEvent :=
  (stationTurn i t).toList.flatMap Evse.emitted

section Turns

variable {t : Transition (Network ι) (Act ι)} {i : ι}

omit [DecidableEq ι] in
theorem mem_vehicleFrames {o : Outgoing} :
    o ∈ vehicleFrames t ↔ ∃ p, vehicleTurn t = some p ∧ o ∈ Ev.queued p := by
  simp [vehicleFrames]

omit [DecidableEq ι] in
theorem mem_vehicleEvents {e : EvEvent} :
    e ∈ vehicleEvents t ↔ ∃ p, vehicleTurn t = some p ∧ e ∈ Ev.emitted p := by
  simp [vehicleEvents]

theorem mem_stationFrames {o : Outgoing} :
    o ∈ stationFrames i t ↔ ∃ p, stationTurn i t = some p ∧ o ∈ Evse.queued p := by
  simp [stationFrames]

theorem mem_stationEvents {e : EvseEvent} :
    e ∈ stationEvents i t ↔ ∃ p, stationTurn i t = some p ∧ e ∈ Evse.emitted p := by
  simp [stationEvents]

omit [DecidableEq ι] in
theorem heard_of_vehicleTurn {p : Transition Ev Ev.Call} (hp : vehicleTurn t = some p)
    {now : Instant} {raw : List UInt8} (hcall : p.call = .frame now raw) :
    t.call.heard = some raw := by
  obtain ⟨hown, -, -⟩ := turn_eq_some.mp hp
  rw [hcall] at hown
  cases ha : t.call with
  | vehicle c =>
    rw [ha] at hown
    cases hown
    rfl
  | station i c =>
    rw [ha] at hown
    cases hown

theorem heard_of_stationTurn {i : ι} {p : Transition Evse Evse.Call}
    (hp : stationTurn i t = some p) {now : Instant} {raw : List UInt8}
    (hcall : p.call = .frame now raw) : t.call.heard = some raw := by
  obtain ⟨hown, -, -⟩ := turn_eq_some.mp hp
  rw [hcall] at hown
  cases ha : t.call with
  | vehicle c =>
    rw [ha] at hown
    cases hown
  | station j c =>
    rw [ha] at hown
    obtain ⟨-, hc⟩ := Option.ite_none_right_eq_some.mp hown
    cases hc
    rfl

end Turns

/-! ## Nothing is forged

Frames are only moved about: from a queue to the medium, and from there to a party. Where one is
delivered, it was queued before. -/

/-- One of the parties queued the frame. -/
def Sent (log : List (Transition (Network ι) (Act ι))) (o : Outgoing) : Prop :=
  ∃ t ∈ log, o ∈ vehicleFrames t ∨ ∃ i, o ∈ stationFrames i t

/-- The invariant: whatever is in a queue or on the medium was queued by one of the parties. -/
structure Carried (log : List (Transition (Network ι) (Act ι))) (n : Network ι) : Prop where
  vehicle : ∀ o ∈ n.vehicle.out, Sent log o
  station : ∀ i, ∀ o ∈ (n.station i).out, Sent log o
  medium : ∀ raw ∈ n.medium, ∃ o, Sent log o ∧ o.frame = raw

section Step

variable {log : List (Transition (Network ι) (Act ι))} {n : Network ι} {o : Outgoing}

theorem Sent.append (h : Sent log o) (more : List (Transition (Network ι) (Act ι))) :
    Sent (log ++ more) o := by
  obtain ⟨t, ht, ho⟩ := h
  exact ⟨t, List.mem_append_left more ht, ho⟩

theorem sent_vehicle {c : Ev.Call} (h : o ∈ Ev.queued (taken Ev.call n.vehicle c)) :
    Sent (log ++ [taken act n (.vehicle c)]) o := by
  refine ⟨_, List.mem_append_right log (List.mem_singleton_self _), .inl ?_⟩
  exact mem_vehicleFrames.mpr ⟨_, rfl, h⟩

theorem sent_station {i : ι} {c : Evse.Call}
    (h : o ∈ Evse.queued (taken Evse.call (n.station i) c)) :
    Sent (log ++ [taken act n (.station i c)]) o := by
  refine ⟨_, List.mem_append_right log (List.mem_singleton_self _), .inr ⟨i, ?_⟩⟩
  refine mem_stationFrames.mpr ⟨taken Evse.call (n.station i) c, ?_, h⟩
  refine turn_eq_some.mpr ⟨if_pos rfl, rfl, ?_⟩
  exact Function.update_self i _ n.station

theorem mem_out_of_transmitted_vehicle {s : Ev} {c : Ev.Call}
    (h : o ∈ Ev.transmitted (taken Ev.call s c)) : o ∈ s.out := by
  cases c with
  | pollTransmit => exact List.mem_of_mem_head? (Option.mem_toList.mp h)
  | start now => cases h
  | frame now raw => cases h
  | timeout now => cases h
  | pollEvent => cases h

theorem mem_out_of_transmitted_station {s : Evse} {c : Evse.Call}
    (h : o ∈ Evse.transmitted (taken Evse.call s c)) : o ∈ s.out := by
  cases c with
  | pollTransmit => exact List.mem_of_mem_head? (Option.mem_toList.mp h)
  | frame now raw => cases h
  | timeout now => cases h
  | observe profile => cases h
  | reset => cases h
  | pollEvent => cases h

/-- What is written was in the queue of the party that wrote it, and the other parties' queues are
as they were. -/
theorem carried_act (h : Carried log n) (a : Act ι) :
    Carried (log ++ [taken act n a]) (n.act a) := by
  cases a with
  | vehicle c =>
    refine ⟨fun o ho => ?_, fun i o ho => (h.station i o ho).append _, fun raw hraw => ?_⟩
    -- a frame that is queued was queued before, or by this call
    · rcases Ev.mem_out_call ho with hold | hnew
      · exact (h.vehicle o hold).append _
      · exact sent_vehicle hnew
    · rcases List.mem_append.mp hraw with hold | hnew
      · obtain ⟨o, ho, hframe⟩ := h.medium raw hold
        exact ⟨o, ho.append _, hframe⟩
      · obtain ⟨o, ho, hframe⟩ := List.mem_map.mp hnew
        exact ⟨o, (h.vehicle o (mem_out_of_transmitted_vehicle ho)).append _, hframe⟩
  | station i c =>
    refine ⟨fun o ho => (h.vehicle o ho).append _, fun j o ho => ?_, fun raw hraw => ?_⟩
    -- only the station whose turn it is has moved
    · by_cases hj : j = i
      · have ho' : o ∈ ((n.station i).call c).out := by
          rw [hj] at ho
          have hself : (n.act (.station i c)).station i = (n.station i).call c :=
            Function.update_self i _ n.station
          rwa [hself] at ho
        rcases Evse.mem_out_call ho' with hold | hnew
        · exact (h.station i o hold).append _
        · exact sent_station hnew
      · have hother : (n.act (.station i c)).station j = n.station j :=
          Function.update_of_ne hj _ n.station
        rw [hother] at ho
        exact (h.station j o ho).append _
    · rcases List.mem_append.mp hraw with hold | hnew
      · obtain ⟨o, ho, hframe⟩ := h.medium raw hold
        exact ⟨o, ho.append _, hframe⟩
      · obtain ⟨o, ho, hframe⟩ := List.mem_map.mp hnew
        exact ⟨o, (h.station i o (mem_out_of_transmitted_station ho)).append _, hframe⟩

end Step

/-- **Nothing is forged.** Every frame that is delivered was queued, earlier, by the vehicle or by
one of the stations. -/
theorem sent_of_heard {config : EvConfig} {stations : ι → EvseConfig} {acts : List (Act ι)}
    (h : Unforged config stations acts) :
    Along (fun log t => ∀ raw ∈ t.call.heard, ∃ o, Sent log o ∧ o.frame = raw)
      (history config stations acts) := by
  refine along_of_invariant (show Carried [] (new config stations) from ?_)
    (fun log n a hn _ => carried_act hn a) ?_ h
  · refine ⟨fun o ho => ?_, fun i o ho => ?_, fun raw hraw => ?_⟩
    · cases ho
    · cases ho
    · cases hraw
  · intro log n a hn hwritten raw hraw
    exact hn.medium raw (hwritten raw hraw)

end Network

end Iso15118.Slac
