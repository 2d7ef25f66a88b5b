import Mathlib.Data.List.Nodup

/-!
# The protocol generations and how one is agreed

`protocol.rs` and the negotiation of `app_protocol.rs`. A vehicle offers a list of protocols with
a priority each; the station takes the vehicle's first choice among those it speaks. The build
modelled is the one with every message set compiled in.
-/

namespace Iso15118

/-! ## Generations and message sets

The enumerations of the source and the namespaces they are known by. A set of protocols is a list
without repeats here; the array it is kept in is the subject of `Protocol/Slots`. -/

inductive Protocol where
  | din70121
  | iso2
  | iso20
  deriving DecidableEq, Repr

/-- The ISO 15118-20 message sets a vehicle can offer. -/
inductive Iso20Set where
  | dc
  | ac
  | wpt
  | acdp
  | acDerIec
  | acDerSae
  deriving DecidableEq, Repr

namespace Iso20Set

/-- `Iso20Set::ALL`. -/
def all : List Iso20Set := [.dc, .ac, .wpt, .acdp, .acDerIec, .acDerSae]

/-- The namespace `ProtocolNamespace` carries. -/
def «namespace» : Iso20Set → String
  | .dc => "urn:iso:std:iso:15118:-20:DC"
  | .ac => "urn:iso:std:iso:15118:-20:AC"
  | .wpt => "urn:iso:std:iso:15118:-20:WPT"
  | .acdp => "urn:iso:std:iso:15118:-20:ACDP"
  | .acDerIec => "urn:iso:std:iso:15118:-20:AC-DER-IEC"
  | .acDerSae => "urn:iso:std:iso:15118:-20:AC-DER-SAE"

/-- `Iso20Set::from_namespace`. -/
def fromNamespace (ns : String) : Option Iso20Set := all.find? (·.namespace = ns)

end Iso20Set

namespace Protocol

def «namespace» : Protocol → String
  | .din70121 => "urn:din:70121:2012:MsgDef"
  | .iso2 => "urn:iso:15118:2:2013:MsgDef"
  | .iso20 => Iso20Set.dc.namespace

/-- The major and minor version of the schema. -/
def version : Protocol → UInt32 × UInt32
  | .din70121 => (2, 0)
  | .iso2 => (2, 0)
  | .iso20 => (1, 0)

/-- `Protocol::from_namespace`: any of the -20 sets means -20. -/
def fromNamespace (ns : String) : Option Protocol :=
  if (Iso20Set.fromNamespace ns).isSome then some .iso20
  else [Protocol.din70121, .iso2].find? (·.namespace = ns)

end Protocol

/-- A set of protocols, in the order they were put in. -/
structure Protocols where
  entries : List Protocol
  nodup : entries.Nodup
  deriving DecidableEq

namespace Protocols

/-- `Protocols::ISO`. -/
def iso : Protocols := ⟨[.iso20, .iso2], by decide⟩

def contains (s : Protocols) (protocol : Protocol) : Bool := decide (protocol ∈ s.entries)

/-- Keeps the protocols `f` is true of. -/
def retain (s : Protocols) (f : Protocol → Bool) : Protocols :=
  ⟨s.entries.filter f, s.nodup.filter f⟩

/-- Removes `protocol`. -/
def remove (s : Protocols) (protocol : Protocol) : Protocols := s.retain (· ≠ protocol)

end Protocols

/-! ## The handshake

What the vehicle offers and how the station settles on one entry of it. The loops are folds over
the lists, with the same order of turns. -/

namespace AppProtocol

/-- One entry of the vehicle's offer. -/
structure Entry where
  protocolNamespace : String
  versionNumberMajor : UInt32
  versionNumberMinor : UInt32
  schemaId : UInt8
  priority : UInt8
  deriving DecidableEq, Repr

def Entry.protocol (e : Entry) : Option Protocol := Protocol.fromNamespace e.protocolNamespace

def Entry.iso20Set (e : Entry) : Option Iso20Set := Iso20Set.fromNamespace e.protocolNamespace

inductive ResponseCode where
  | okSuccessfulNegotiation
  | okSuccessfulNegotiationWithMinorDeviation
  | failedNoNegotiation
  deriving DecidableEq, Repr

def ResponseCode.isOk : ResponseCode → Bool
  | .okSuccessfulNegotiation | .okSuccessfulNegotiationWithMinorDeviation => true
  | .failedNoNegotiation => false

/-- What a negotiation settled on. -/
structure Negotiated where
  protocol : Protocol
  iso20Set : Option Iso20Set
  schemaId : UInt8
  minorDeviation : Bool
  deriving DecidableEq, Repr

def Negotiated.responseCode (n : Negotiated) : ResponseCode :=
  if n.minorDeviation then .okSuccessfulNegotiationWithMinorDeviation
  else .okSuccessfulNegotiation

/-- `supportedAppProtocolReq`. -/
structure Req where
  appProtocols : List Entry
  deriving DecidableEq, Repr

/-- `supportedAppProtocolRes`. -/
structure Res where
  responseCode : ResponseCode
  schemaId : Option UInt8
  deriving DecidableEq, Repr

def Res.accept (negotiated : Negotiated) : Res where
  responseCode := negotiated.responseCode
  schemaId := some negotiated.schemaId

def Res.reject : Res where
  responseCode := .failedNoNegotiation
  schemaId := none

/-- `DEFAULT_ISO20_SETS`. -/
def defaultIso20Sets : List Iso20Set := [.dc, .ac]

/-- `MAX_APP_PROTOCOLS`. -/
def maxAppProtocols : Nat := 20

/-- `schema_id_for_index`: capped rather than wrapped. -/
def schemaIdForIndex (index : Nat) : UInt8 :=
  if index + 1 ≤ 255 then UInt8.ofNat (index + 1) else 255

/-- `AppProtocol::for_protocol`. -/
def Entry.forProtocol (protocol : Protocol) (schemaId priority : UInt8) : Entry where
  protocolNamespace := protocol.namespace
  versionNumberMajor := protocol.version.1
  versionNumberMinor := protocol.version.2
  schemaId := schemaId
  priority := priority

/-- `AppProtocol::for_iso20_set`. -/
def Entry.forIso20Set (set : Iso20Set) (schemaId priority : UInt8) : Entry where
  protocolNamespace := set.namespace
  versionNumberMajor := Protocol.iso20.version.1
  versionNumberMinor := Protocol.iso20.version.2
  schemaId := schemaId
  priority := priority

/-- The inner loop of `advertising_with`: one entry per message set, a repeat skipped. `seen` is
what comes before in the list. -/
def offerSets (entries : List Entry) (seen : List Iso20Set) : List Iso20Set → List Entry
  | [] => entries
  | set :: rest =>
      if set ∈ seen then offerSets entries (seen ++ [set]) rest
      else
        let n := schemaIdForIndex entries.length
        offerSets (entries ++ [.forIso20Set set n n]) (seen ++ [set]) rest

/-- One turn of the outer loop: the entries of one generation behind those already there. -/
def offer (iso20Sets : List Iso20Set) (entries : List Entry) (protocol : Protocol) : List Entry :=
  if protocol = .iso20 then offerSets entries [] iso20Sets
  else
    let n := schemaIdForIndex entries.length
    entries ++ [.forProtocol protocol n n]

/-- `SupportedAppProtocolReq::advertising_with`. -/
def Req.advertisingWith (protocols : Protocols) (iso20Sets : List Iso20Set) : Req where
  appProtocols := (protocols.entries.foldl (offer iso20Sets) []).take maxAppProtocols

/-- What `entry` would settle on: nothing unless the station speaks the protocol, agrees to the
message set and has the schema's major version. -/
def Entry.settles (supported : Protocols) (iso20Sets : List Iso20Set) (entry : Entry) :
    Option Negotiated :=
  match entry.protocol with
  | none => none
  | some protocol =>
      if ¬ supported.contains protocol then none
      else if entry.iso20Set.any fun set => set ∉ iso20Sets then none
      -- a differing major version is an incompatible schema, a differing minor one is reported
      else if entry.versionNumberMajor ≠ protocol.version.1 then none
      else some {
        protocol
        iso20Set := entry.iso20Set
        schemaId := entry.schemaId
        minorDeviation := decide (entry.versionNumberMinor ≠ protocol.version.2) }

/-- One turn of the negotiation loop: a later entry wins with a smaller priority only, so ties
keep the earlier one. -/
def better (supported : Protocols) (iso20Sets : List Iso20Set)
    (best : Option (UInt8 × Negotiated)) (entry : Entry) : Option (UInt8 × Negotiated) :=
  match entry.settles supported iso20Sets with
  | none => best
  | some negotiated =>
      match best with
      | some (p, n) => if entry.priority ≥ p then some (p, n) else some (entry.priority, negotiated)
      | none => some (entry.priority, negotiated)

/-- `SupportedAppProtocolReq::negotiate_with`: the vehicle's first choice among the entries the
station can settle on. -/
def Req.negotiateWith (req : Req) (supported : Protocols) (iso20Sets : List Iso20Set) :
    Option Negotiated :=
  (req.appProtocols.foldl (better supported iso20Sets) none).map (·.2)

end AppProtocol

end Iso15118
