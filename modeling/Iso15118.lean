import Iso15118.Lib.Run
import Iso15118.Lib.Party
import Iso15118.Session.Basic
import Iso15118.Session.Iso2.Sequencer
import Iso15118.Session.Iso2.Interlock
import Iso15118.Session.Iso20.Sequencer
import Iso15118.Session.Pause
import Iso15118.Session.Latch
import Iso15118.Session.Iso2.PlugAndCharge
import Iso15118.Session.Iso20.Interlock
import Iso15118.Lib.Wire
import Iso15118.Session.Clock
import Iso15118.Slac.Frame
import Iso15118.Slac.Message
import Iso15118.Slac.Matching
import Iso15118.Slac.Station.Outcome
import Iso15118.Slac.Station.Queues
import Iso15118.Slac.Station.Runs
import Iso15118.Slac.Station.Freshness
import Iso15118.Slac.Station.KeyRelease
import Iso15118.Slac.Vehicle.Basic
import Iso15118.Slac.Vehicle.Effect
import Iso15118.Slac.Vehicle.KeyBinding
import Iso15118.Exi.Basic
import Iso15118.Lib.Check
import Iso15118.Pnc.Basic
import Iso15118.Pnc.Pki.Cert
import Iso15118.Pnc.Pki.Chain
import Iso15118.Pnc.Pki.Path
import Iso15118.Pnc.Pki.Selection
import Iso15118.Pnc.Pki.Tlv
import Iso15118.Pnc.Pki.Fields
import Iso15118.Pnc.Pki.Slack
import Iso15118.Pnc.Pki.Extensions
import Iso15118.Pnc.Pki.Algorithm
import Iso15118.Lib.Greedy
import Iso15118.Pnc.Signature
import Iso15118.Pnc.Coverage
import Iso15118.Pnc.Authorization
import Iso15118.Pnc.Replay
import Iso15118.Protocol
import Iso15118.Session.Timers
import Iso15118.V2gtp
import Iso15118.Message.Basic
import Iso15118.Session.Flow
import Iso15118.Session.Reassembly
import Iso15118.Session.Foreign
import Iso15118.Session.Iso20.Authorization
import Iso15118.Secc.Basic
import Iso15118.Secc.Effect
import Iso15118.Secc.Close
import Iso15118.Secc.Setup
import Iso15118.Secc.HalfDuplex
import Iso15118.Secc.Identity
import Iso15118.Secc.Answerable
import Iso15118.Evcc.Basic
import Iso15118.Evcc.Effect
import Iso15118.Evcc.Answers
import Iso15118.Session.Failure
import Iso15118.Session.Pace
import Iso15118.Secc.Pace
import Iso15118.Drivers.Failure
import Iso15118.Drivers.LoopBudget
import Iso15118.Message.Pairing
import Iso15118.Drivers.MessageSet
import Iso15118.Negotiation
import Iso15118.Session.Delivery
import Iso15118.Drivers.Link
import Iso15118.Drivers.Handshake
import Iso15118.Drivers.Lockstep
import Iso15118.Lib.Bits
import Iso15118.Exi.Bitstream
import Iso15118.Exi.Primitives
import Iso15118.Exi.StringTable
import Iso15118.Exi.Codec
import Iso15118.Exi.Strings
import Iso15118.Exi.Carries
import Iso15118.Exi.Header
import Iso15118.AppProtocol
import Iso15118.Exi.Sequence
import Iso15118.Codegen.Xsd
import Iso15118.Codegen.Layout
import Iso15118.Codegen.Coding
import Iso15118.Codegen.Soundness
import Iso15118.Codegen.Emit
import Iso15118.Codegen.Bodies
import Iso15118.Codegen.Decoded
import Iso15118.Lib.Fragment
import Iso15118.Codegen.Grammar
import Iso15118.Codegen.Construction
import Iso15118.Codegen.Determinise
import Iso15118.Codegen.ContentModel
import Iso15118.Codegen.Derivation
import Iso15118.Slac.Vehicle.Burst
import Iso15118.Lib.Deletion
import Iso15118.Slac.Station.Bystander
import Iso15118.Slac.RoundTrip
import Iso15118.Slac.Network
import Iso15118.Slac.Agreement
import Iso15118.Sdp.Basic
import Iso15118.Sdp.Noise
import Iso15118.Pnc.SignVerify
import Iso15118.Drivers.Refusal
import Iso15118.Slac.Station.Delivery
import Iso15118.Slac.Vehicle.Window
import Iso15118.Slac.Vehicle.Choice
import Iso15118.Slac.Decoders
import Iso15118.Sdp.Outcome
import Iso15118.Lib.BigEndian
import Iso15118.Pnc.Pki.Canonical
import Iso15118.Lib.Timeline
import Iso15118.Session.Iso2.Schedule
import Iso15118.Session.Iso2.Profile
import Iso15118.Lib.Calendar
import Iso15118.Pnc.Pki.Validity
import Iso15118.Pnc.Pki.Exact
import Iso15118.Lib.FirstLeast
import Iso15118.Lib.Reversal
import Iso15118.Exi.Fraction
import Iso15118.Lib.SortedMap
import Iso15118.Lib.Worklist
import Iso15118.Codegen.Elements
import Iso15118.Codegen.EventOrder
import Iso15118.Lib.Overflow
import Iso15118.Exi.Growing
import Iso15118.Codegen.Scalar
import Iso15118.Codegen.Minimal
import Iso15118.Codegen.Crates
import Iso15118.Codegen.Documents
import Iso15118.Drivers.Exchange
import Iso15118.Lib.Alarm
import Iso15118.Session.Alarm
import Iso15118.Secc.Silence
import Iso15118.Evcc.Silence
import Iso15118.Lib.Blocks
import Iso15118.Codegen.Flatten
import Iso15118.Codegen.BuildOrder
import Iso15118.Codegen.Offers
import Iso15118.Codegen.Refinement
import Iso15118.Codegen.Verify
import Iso15118.Lib.Pruning
import Iso15118.Lib.Naming
import Iso15118.Codegen.Generatable
import Iso15118.Codegen.Emission
import Iso15118.Sdp.Answer
import Iso15118.Sdp.Segment
import Iso15118.Sdp.Ending
import Iso15118.Pnc.Metering
import Iso15118.Pnc.Envelope
import Iso15118.Message.Refusal
import Iso15118.Drivers.Refusable
import Iso15118.Lib.Slots
import Iso15118.Protocol.Slots
import Iso15118.Protocol.Name
import Iso15118.Session.Iso2.Coverage
