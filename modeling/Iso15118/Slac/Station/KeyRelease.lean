import Iso15118.Slac.Station.Runs

/-!
# Handing over the key

`CM_SLAC_MATCH.CNF` carries the network key in the clear, on the strength of the attenuation
measured for the vehicle that opened the run. So the confirmation belongs to that vehicle: its
address as the destination, its address in the message, its run id, and not before the
measurement.

The request that triggers the release carries its own copy of the vehicle's address beside the
Ethernet source. The engine checks the source and answers the copy: a request whose copy names
somebody else sends the key there. `Evse.keys_bound_iff` says that this is the only way for the
key to go astray.
-/

namespace Iso15118.Slac.Evse

open Iso15118.Lib Iso15118.Session

/-! ## The binding along a run

What a confirmation should say, and the condition on the request that it is sent for. -/

/-- A confirmation goes to the vehicle that opened the run in progress, names that vehicle and
that run, and follows a measurement made in it. -/
def ConfirmationBound (log : List (Transition Evse Call)) (t : Transition Evse Call) : Prop :=
  ∀ o ∈ queued t, ∀ f, parseFrame o.frame = .ok f → f.mmtype = .slacMatchCnf →
    ∃ e later source runId cnf, Since Opens log e later ∧ opening e = some (source, runId)
      ∧ o.destination = source ∧ f.destination = source
      ∧ SlacMatchCnf.decode f.payload = .ok cnf ∧ cnf.pevMac = source ∧ cnf.runId = runId
      ∧ ∃ x ∈ later, x.after.state = .measured

/-- A `Matched` event reports the vehicle that opened the run in progress. -/
def MatchBound (log : List (Transition Evse Call)) (t : Transition Evse Call) : Prop :=
  ∀ pevId pevMac nmk, .matched pevId pevMac nmk ∈ emitted t →
    ∃ e later source runId, Since Opens log e later ∧ opening e = some (source, runId)
      ∧ pevMac = source

def KeysBound (config : EvseConfig) (calls : List Call) : Prop :=
  Along (fun log t => ConfirmationBound log t ∧ MatchBound log t) (history config calls)

/-- A key request that would be granted gives the Ethernet source it comes from as the vehicle's
address. -/
def RequestHonest (t : Transition Evse Call) : Prop :=
  ∀ now raw source req, t.call = .frame now raw → receive raw = some (source, .matchReq req) →
    t.before.state = .measured → (t.before.bound req.runId source).isSome = true →
    req.evseMac = t.before.config.mac → req.evseId = t.before.config.id → req.pevMac = source

def RequestsHonest (config : EvseConfig) (calls : List Call) : Prop :=
  Along (fun _ t => RequestHonest t) (history config calls)

/-! ## Bound exactly when honest

The handler checks the source of the request and its run id, and then goes by the address inside.
So both come to the same exactly if the two addresses do. -/

theorem carries_matchCnf {o : Outgoing} {destination source : MacAddr} {cnf : SlacMatchCnf}
    (h : o.Carries destination source .slacMatchCnf cnf.fields.flatten) {f : Frame}
    (hparse : parseFrame o.frame = .ok f) :
    f.destination = destination ∧ SlacMatchCnf.decode f.payload = .ok cnf := by
  obtain ⟨padding, hparses⟩ := h.parses
  rw [hparse] at hparses
  cases hparses
  exact ⟨rfl, cnf.decode_fields padding⟩

section Call

variable {config : EvseConfig} {xs : List Call} {c : Call}

/-- With an honest key request the confirmation and the match are bound to the vehicle of the run.
-/
theorem bound_of_honest (hhonest : RequestHonest (taken call (after config xs) c)) :
    ConfirmationBound (history config xs) (taken call (after config xs) c)
      ∧ MatchBound (history config xs) (taken call (after config xs) c) := by
  constructor
  · intro o ho f hparse htype
    cases puts_call (after config xs) c with
    | failure hq he => rw [hq] at ho; cases ho
    | confirmation hopen hq he => rw [(hq o ho).mmtype_eq hparse] at htype; cases htype
    | report hc hrun hm hq he => rw [(hq o ho).2.mmtype_eq hparse] at htype; cases htype
    -- only a key request puts a confirmation out, and it is for the run it is bound to
    | @key now raw source req run hcall hr hb hmac hid hs hq he =>
      have hpev : req.pevMac = source :=
        hhonest now raw source req hcall hr hs (by simp [hb]) hmac hid
      obtain ⟨hrun, hrunId, hsource⟩ := run_of_bound hb
      obtain ⟨e, later, htraced⟩ := exists_traced config xs hrun
      obtain ⟨hdest, hdecode⟩ := carries_matchCnf (hq o ho) hparse
      refine ⟨e, later, run.pevMac, run.id, _, htraced.since, htraced.opened, ?_, ?_, hdecode, ?_,
        rfl, htraced.reached hs⟩
      · rw [(hq o ho).destination_eq, hpev, hsource]
      · rw [hdest, hpev, hsource]
      · show req.pevMac = run.pevMac
        rw [hpev, hsource]
  · intro pevId pevMac nmk hmem
    cases puts_call (after config xs) c with
    | failure hq he => obtain ⟨reason, h⟩ := he _ hmem; cases h
    | confirmation hopen hq he => cases he _ hmem
    | report hc hrun hm hq he => rcases he _ hmem with h | h <;> cases h
    -- and only that reports a match
    | @key now raw source req run hcall hr hb hmac hid hs hq he =>
      have hpev : req.pevMac = source :=
        hhonest now raw source req hcall hr hs (by simp [hb]) hmac hid
      obtain ⟨hrun, hrunId, hsource⟩ := run_of_bound hb
      obtain ⟨e, later, htraced⟩ := exists_traced config xs hrun
      rw [he] at hmem
      cases List.mem_singleton.mp hmem
      exact ⟨e, later, run.pevMac, run.id, htraced.since, htraced.opened, hpev.trans hsource.symm⟩

/-- A granted request reports the address the request gives. -/
theorem honest_of_matchBound
    (h : MatchBound (history config xs) (taken call (after config xs) c)) :
    RequestHonest (taken call (after config xs) c) := by
  intro now raw source req hcall hr hs hb hmac hid
  obtain ⟨run, hbound⟩ := Option.isSome_iff_exists.mp hb
  obtain ⟨hrun, -, hsource⟩ := run_of_bound hbound
  have hgranted : (after config xs).call c = (after config xs).grant run req := by
    obtain rfl : c = .frame now raw := hcall
    show (after config xs).handleFrame now raw = _
    simp only [taken] at hs hbound hmac hid
    simp [handleFrame, hr, onMatchReq, hbound, hmac, hid, hs]
  obtain ⟨o, -, hgrant⟩ := (after config xs).grant_eq run req
  have hemitted : emitted (taken call (after config xs) c)
      = [.matched req.pevId req.pevMac (after config xs).config.nmk] :=
    emitted_of_append (by simp [taken, hgranted, hgrant])
  obtain ⟨e, later, source', runId, hsince, hopen, heq⟩ :=
    h req.pevId req.pevMac _ (hemitted ▸ List.mem_singleton_self _)
  obtain ⟨e', later', htraced⟩ := exists_traced config xs hrun
  obtain ⟨rfl, rfl⟩ := hsince.unique htraced.since
  rw [htraced.opened] at hopen
  cases hopen
  exact heq.trans hsource

end Call

/-- **The key goes where it belongs, exactly.** Every `CM_SLAC_MATCH.CNF` of a run goes to the
vehicle that opened it, names it and its run and follows a measurement made in it, and the
`Matched` event reports the same vehicle, if and only if every key request that is granted gives
its own Ethernet source as the vehicle's address. -/
theorem keys_bound_iff (config : EvseConfig) (calls : List Call) :
    KeysBound config calls ↔ RequestsHonest config calls := by
  unfold KeysBound RequestsHonest history
  rw [along_trace, along_trace]
  constructor
  · intro h xs c ys heq
    exact honest_of_matchBound (h xs c ys heq).2
  · intro h xs c ys heq
    exact bound_of_honest (h xs c ys heq)

/-- The vehicle that opened the run asks for the key in another address's name, and the station
sends it there. -/
theorem not_keysBound_foreignAddress :
    ¬ KeysBound Sample.station
      ([Sample.parmReq, Sample.startAtten, .observe Sample.profile, Sample.sound]
        ++ [Sample.matchReq (Bytes.replicate 6 0xEE)]) := by
  intro h
  unfold KeysBound history at h
  rw [trace_concat] at h
  obtain ⟨hconfirmation, -⟩ := ((along_concat _ _).mp h).2
  have hsent : ∃ o ∈ queued (taken call (Lib.run call (new Sample.station)
        [Sample.parmReq, Sample.startAtten, .observe Sample.profile, Sample.sound])
        (Sample.matchReq (Bytes.replicate 6 0xEE))),
      (acceptFrame o.frame).any (fun f => f.mmtype = .slacMatchCnf) = true
        ∧ o.destination = Bytes.replicate 6 0xEE := by
    decide +kernel
  -- the only run was opened by the vehicle's own address
  have hopened : ∀ t ∈ trace call (new Sample.station)
        [Sample.parmReq, Sample.startAtten, .observe Sample.profile, Sample.sound],
      (opening t).all (fun opened => opened.1 = Sample.pevMac) = true := by
    decide +kernel
  obtain ⟨o, ho, hframe, hdest⟩ := hsent
  obtain ⟨f, haccept, htype⟩ := (Option.any_eq_true _ _).mp hframe
  have hparse : parseFrame o.frame = .ok f := by
    unfold acceptFrame at haccept
    cases hp : parseFrame o.frame with
    | error err => rw [hp] at haccept; cases haccept
    | ok g => rw [hp] at haccept; cases haccept; rfl
  obtain ⟨e, later, source, runId, cnf, ⟨earlier, hlog, -⟩, hopen, hsource, -⟩ :=
    hconfirmation o ho f hparse (of_decide_eq_true htype)
  have hmac := hopened e (hlog ▸ List.mem_append_right _ (List.mem_cons_self ..))
  rw [hopen] at hmac
  have hpev : source = Sample.pevMac := of_decide_eq_true hmac
  rw [hdest, hpev] at hsource
  exact absurd hsource (by decide)

end Iso15118.Slac.Evse
