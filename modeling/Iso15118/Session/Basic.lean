import Iso15118.Lib.Wire

/-!
# What the sessions of both generations share

The transport's `Security`, which decides whether Plug & Charge is on offer, the `SequenceError`
either generation answers a request it does not admit with, and the `SessionId` every message of
a session carries.
-/

namespace Iso15118.Session

/-- Whether the transport carrying a session is secured. -/
inductive Security where
  | tls
  | none
  deriving DecidableEq, Repr

/-- Plug & Charge needs TLS ([V2G2-634], [V2G2-635]). -/
def Security.permitsPlugAndCharge : Security → Bool
  | .tls => true
  | .none => false

/-- The refusal a request out of sequence earns: the element that arrived, the phase the
session was in, and the response code to answer with. -/
structure SequenceError where
  got : String
  phase : String
  responseCode : UInt8
  deriving DecidableEq, Repr

/-- A session's identity, as the station assigns it. -/
abbrev SessionId := Lib.Bytes 8

namespace SessionId

/-- `SessionId::NONE`: no session has it. -/
def none : SessionId := .replicate 8 0

/-- `SessionId::is_none`. -/
def isNone (id : SessionId) : Bool := decide (id = none)

/-- `SessionId::from_slice`: a short id is padded with zeros, a long one is none. -/
def fromSlice (bytes : List UInt8) : Option SessionId :=
  if h : bytes.length ≤ 8 then
    some ⟨bytes ++ List.replicate (8 - bytes.length) 0, by simp; omega⟩
  else Option.none

theorem fromSlice_toList (id : SessionId) : fromSlice id.toList = some id := by
  have hlen := id.length_toList
  unfold fromSlice
  rw [dif_pos (by omega)]
  congr 1
  apply Lib.Bytes.ext
  show id.toList ++ List.replicate (8 - id.toList.length) 0 = id.toList
  rw [hlen, Nat.sub_self, List.replicate_zero, List.append_nil]

end SessionId

end Iso15118.Session
