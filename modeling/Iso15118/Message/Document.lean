import Iso15118.Session.Iso2.Sequencer
import Iso15118.Session.Iso20.Sequencer

/-!
# The documents of the two generations

What a decoded message is, as far as the session engines look into it: its root element, the
session id of its header, its response code, and the handful of fields the sequencers branch on.
Everything else a message carries travels along unread, as the bytes in `rest`.

The elements are those of the generated schema modules. An exchange is named once, and its
request and response are that name with `Req` and `Res` behind it.
-/

namespace Iso15118.Message

/-- The fields of a message that nothing here reads. -/
abbrev Rest := List UInt8

/-- A schema element, with its name; an exchange has the part its request and response share. -/
class Element (α : Type) where
  name : α → String

/-! ## Response codes

Both generations number their codes. One that is neither an OK nor a warning is a failure. -/

namespace Iso2

/-- `ResponseCode`, in the order of its EXI enumeration. -/
inductive ResponseCode where
  | ok | okNewSessionEstablished | okOldSessionJoined | okCertificateExpiresSoon | failed
  | failedSequenceError | failedServiceIdInvalid | failedUnknownSession
  | failedServiceSelectionInvalid | failedPaymentSelectionInvalid | failedCertificateExpired
  | failedSignatureError | failedNoCertificateAvailable | failedCertChainError
  | failedChallengeInvalid | failedContractCanceled | failedWrongChargeParameter
  | failedPowerDeliveryNotApplied | failedTariffSelectionInvalid | failedChargingProfileInvalid
  | failedMeteringSignatureNotValid | failedNoChargeServiceSelected
  | failedWrongEnergyTransferMode | failedContactorError | failedCertificateNotAllowedAtThisEvse
  | failedCertificateRevoked
  deriving DecidableEq, Repr

/-- The EXI enumeration index. -/
def ResponseCode.asU8 (code : ResponseCode) : UInt8 := UInt8.ofNat code.ctorIdx

def ResponseCode.isOk : ResponseCode → Bool
  | .ok | .okNewSessionEstablished | .okOldSessionJoined | .okCertificateExpiresSoon => true
  | _ => false

/-- ISO 15118-2 has no warnings. -/
def ResponseCode.isWarning (_ : ResponseCode) : Bool := false

end Iso2

namespace Iso20

/-- `ResponseCode`, in the order of its EXI enumeration. -/
inductive ResponseCode where
  | ok | okCertificateExpiresSoon | okNewSessionEstablished | okOldSessionJoined
  | okPowerToleranceConfirmed | warningAuthorizationSelectionInvalid | warningCertificateExpired
  | warningCertificateNotYetValid | warningCertificateRevoked | warningCertificateValidationError
  | warningChallengeInvalid | warningEimAuthorizationFailure | warningEmspUnknown
  | warningEvPowerProfileViolation | warningGeneralPncAuthorizationError
  | warningNoCertificateAvailable | warningNoContractMatchingPcidFound
  | warningPowerToleranceNotConfirmed | warningScheduleRenegotiationFailed
  | warningStandbyNotAllowed | warningWpt | failed | failedAssociationError | failedContactorError
  | failedEvPowerProfileInvalid | failedEvPowerProfileViolation | failedMeteringSignatureNotValid
  | failedNoEnergyTransferServiceSelected | failedNoServiceRenegotiationSupported
  | failedPauseNotAllowed | failedPowerDeliveryNotApplied | failedPowerToleranceNotConfirmed
  | failedScheduleRenegotiation | failedScheduleSelectionInvalid | failedSequenceError
  | failedServiceIdInvalid | failedServiceSelectionInvalid | failedSignatureError
  | failedUnknownSession | failedWrongChargeParameter
  deriving DecidableEq, Repr

/-- The EXI enumeration index. -/
def ResponseCode.asU8 (code : ResponseCode) : UInt8 := UInt8.ofNat code.ctorIdx

def ResponseCode.isOk : ResponseCode → Bool
  | .ok | .okCertificateExpiresSoon | .okNewSessionEstablished | .okOldSessionJoined
  | .okPowerToleranceConfirmed => true
  | _ => false

def ResponseCode.isWarning : ResponseCode → Bool
  | .warningAuthorizationSelectionInvalid | .warningCertificateExpired
  | .warningCertificateNotYetValid | .warningCertificateRevoked
  | .warningCertificateValidationError | .warningChallengeInvalid
  | .warningEimAuthorizationFailure | .warningEmspUnknown | .warningEvPowerProfileViolation
  | .warningGeneralPncAuthorizationError | .warningNoCertificateAvailable
  | .warningNoContractMatchingPcidFound | .warningPowerToleranceNotConfirmed
  | .warningScheduleRenegotiationFailed | .warningStandbyNotAllowed | .warningWpt => true
  | _ => false

end Iso20

/-! ## ISO 15118-2

All thirty-four messages go through the body of one `V2G_Message` root; each of them is also a
root element of its own in the schema, and so are thirty-two elements that are no messages. -/

namespace Iso2

open Session.Iso2 (PaymentOption EnergyTransferMode ChargeProgress ChargingSession)

/-- A request, with the fields the sequencer reads. -/
inductive Req where
  | authorization
  | cableCheck
  | certificateInstallation
  | certificateUpdate
  | chargeParameterDiscovery (requestedEnergyTransferMode : EnergyTransferMode)
  | chargingStatus
  | currentDemand
  | meteringReceipt
  | paymentDetails
  | paymentServiceSelection (selectedPaymentOption : PaymentOption)
  | powerDelivery (chargeProgress : ChargeProgress)
  | preCharge
  | serviceDetail
  | serviceDiscovery
  | sessionSetup
  | sessionStop (chargingSession : ChargingSession)
  | weldingDetection
  deriving DecidableEq, Repr

instance : Element Req where
  name
    | .authorization => "Authorization"
    | .cableCheck => "CableCheck"
    | .certificateInstallation => "CertificateInstallation"
    | .certificateUpdate => "CertificateUpdate"
    | .chargeParameterDiscovery _ => "ChargeParameterDiscovery"
    | .chargingStatus => "ChargingStatus"
    | .currentDemand => "CurrentDemand"
    | .meteringReceipt => "MeteringReceipt"
    | .paymentDetails => "PaymentDetails"
    | .paymentServiceSelection _ => "PaymentServiceSelection"
    | .powerDelivery _ => "PowerDelivery"
    | .preCharge => "PreCharge"
    | .serviceDetail => "ServiceDetail"
    | .serviceDiscovery => "ServiceDiscovery"
    | .sessionSetup => "SessionSetup"
    | .sessionStop _ => "SessionStop"
    | .weldingDetection => "WeldingDetection"

inductive Res where
  | authorization
  | cableCheck
  | certificateInstallation
  | certificateUpdate
  | chargeParameterDiscovery
  | chargingStatus
  | currentDemand
  | meteringReceipt
  | paymentDetails
  | paymentServiceSelection
  | powerDelivery
  | preCharge
  | serviceDetail
  | serviceDiscovery
  | sessionSetup
  | sessionStop
  | weldingDetection
  deriving DecidableEq, Repr

instance : Element Res where
  name
    | .authorization => "Authorization"
    | .cableCheck => "CableCheck"
    | .certificateInstallation => "CertificateInstallation"
    | .certificateUpdate => "CertificateUpdate"
    | .chargeParameterDiscovery => "ChargeParameterDiscovery"
    | .chargingStatus => "ChargingStatus"
    | .currentDemand => "CurrentDemand"
    | .meteringReceipt => "MeteringReceipt"
    | .paymentDetails => "PaymentDetails"
    | .paymentServiceSelection => "PaymentServiceSelection"
    | .powerDelivery => "PowerDelivery"
    | .preCharge => "PreCharge"
    | .serviceDetail => "ServiceDetail"
    | .serviceDiscovery => "ServiceDiscovery"
    | .sessionSetup => "SessionSetup"
    | .sessionStop => "SessionStop"
    | .weldingDetection => "WeldingDetection"

/-- The root elements that are neither a message nor a body. -/
inductive OtherElement where
  | acEvChargeParameter | acEvseChargeParameter | acEvseStatus | canonicalizationMethod
  | dcEvChargeParameter | dcEvPowerDeliveryParameter | dcEvseChargeParameter | dcEvseStatus
  | dcEvStatus | digestMethod | evChargeParameter | evPowerDeliveryParameter | evseChargeParameter
  | evseStatus | evStatus | entry | manifest | pmaxScheduleEntry | rsaKeyValue | reference
  | relativeTimeInterval | retrievalMethod | saScheduleList | saSchedules | salesTariffEntry
  | signature | signatureMethod | signatureValue | signedInfo | timeInterval | transform
  | transforms
  deriving DecidableEq, Repr

instance : Element OtherElement where
  name
    | .acEvChargeParameter => "AC_EVChargeParameter"
    | .acEvseChargeParameter => "AC_EVSEChargeParameter"
    | .acEvseStatus => "AC_EVSEStatus"
    | .canonicalizationMethod => "CanonicalizationMethod"
    | .dcEvChargeParameter => "DC_EVChargeParameter"
    | .dcEvPowerDeliveryParameter => "DC_EVPowerDeliveryParameter"
    | .dcEvseChargeParameter => "DC_EVSEChargeParameter"
    | .dcEvseStatus => "DC_EVSEStatus"
    | .dcEvStatus => "DC_EVStatus"
    | .digestMethod => "DigestMethod"
    | .evChargeParameter => "EVChargeParameter"
    | .evPowerDeliveryParameter => "EVPowerDeliveryParameter"
    | .evseChargeParameter => "EVSEChargeParameter"
    | .evseStatus => "EVSEStatus"
    | .evStatus => "EVStatus"
    | .entry => "Entry"
    | .manifest => "Manifest"
    | .pmaxScheduleEntry => "PMaxScheduleEntry"
    | .rsaKeyValue => "RSAKeyValue"
    | .reference => "Reference"
    | .relativeTimeInterval => "RelativeTimeInterval"
    | .retrievalMethod => "RetrievalMethod"
    | .saScheduleList => "SAScheduleList"
    | .saSchedules => "SASchedules"
    | .salesTariffEntry => "SalesTariffEntry"
    | .signature => "Signature"
    | .signatureMethod => "SignatureMethod"
    | .signatureValue => "SignatureValue"
    | .signedInfo => "SignedInfo"
    | .timeInterval => "TimeInterval"
    | .transform => "Transform"
    | .transforms => "Transforms"

structure MessageHeader where
  sessionId : List UInt8
  rest : Rest
  deriving DecidableEq, Repr

/-- `BodyChoice`: what a body holds. -/
inductive BodyChoice where
  | request (element : Req) (rest : Rest)
  | response (element : Res) (responseCode : ResponseCode) (rest : Rest)
  | bodyElement (rest : Rest)
  deriving DecidableEq, Repr

def BodyChoice.name : BodyChoice → String
  | .request e _ => Element.name e ++ "Req"
  | .response e _ _ => Element.name e ++ "Res"
  | .bodyElement _ => "BodyElement"

def BodyChoice.responseCode : BodyChoice → Option ResponseCode
  | .response _ code _ => some code
  | _ => none

inductive Document where
  | v2gMessage (header : MessageHeader) (body : Option BodyChoice)
  /-- A body element as a root of its own, outside `V2G_Message`. -/
  | body (choice : BodyChoice)
  | other (element : OtherElement) (rest : Rest)
  deriving DecidableEq, Repr

/-- `Document::name`. -/
def Document.name : Document → String
  | .v2gMessage _ _ => "V2G_Message"
  | .body choice => choice.name
  | .other e _ => Element.name e

end Iso2

/-! ## ISO 15118-20

Each message set has its own document type, and every message its own header. The sets differ in
their elements only. -/

namespace Iso20

open Session.Iso20 (ChargeProgress ChargingSession)

structure MessageHeader where
  sessionId : List UInt8
  rest : Rest
  deriving DecidableEq, Repr

/-- A document of one message set: a request, a response, or an element that is no message. -/
inductive Document (Req Res Other : Type) where
  | request (element : Req) (header : MessageHeader) (rest : Rest)
  | response (element : Res) (header : MessageHeader) (responseCode : ResponseCode) (rest : Rest)
  | other (element : Other) (rest : Rest)
  deriving DecidableEq, Repr

namespace Document

variable {Req Res Other : Type}

/-- `Document::name`. -/
def name [Element Req] [Element Res] [Element Other] : Document Req Res Other → String
  | .request e _ _ => Element.name e ++ "Req"
  | .response e _ _ _ => Element.name e ++ "Res"
  | .other e _ => Element.name e

/-- `Document::header`: the elements that are no messages have none. -/
def header : Document Req Res Other → Option MessageHeader
  | .request _ h _ => some h
  | .response _ h _ _ => some h
  | .other _ _ => none

/-- Writes through `Document::header_mut`. -/
def setHeader (header : MessageHeader) : Document Req Res Other → Document Req Res Other
  | .request e _ rest => .request e header rest
  | .response e _ code rest => .response e header code rest
  | .other e rest => .other e rest

def responseCode : Document Req Res Other → Option ResponseCode
  | .response _ _ code _ => some code
  | _ => none

end Document

instance : Element Empty where
  name e := nomatch e

inductive Processing where
  | finished
  | ongoing
  | ongoingWaitingForCustomerInteraction
  deriving DecidableEq, Repr

/-! ### The common messages

The messages that every -20 session has, whatever the service. -/

namespace Messages

/-- A request, with the fields the sequencer reads. -/
inductive Req where
  | authorization
  | authorizationSetup
  | certificateInstallation
  | meteringConfirmation
  | powerDelivery (evProcessing : Processing) (chargeProgress : ChargeProgress)
  | scheduleExchange
  | serviceDetail
  | serviceDiscovery
  | serviceSelection (serviceId : UInt16)
  | sessionSetup
  | sessionStop (chargingSession : ChargingSession)
  | vehicleCheckIn
  | vehicleCheckOut
  deriving DecidableEq, Repr

instance : Element Req where
  name
    | .authorization => "Authorization"
    | .authorizationSetup => "AuthorizationSetup"
    | .certificateInstallation => "CertificateInstallation"
    | .meteringConfirmation => "MeteringConfirmation"
    | .powerDelivery _ _ => "PowerDelivery"
    | .scheduleExchange => "ScheduleExchange"
    | .serviceDetail => "ServiceDetail"
    | .serviceDiscovery => "ServiceDiscovery"
    | .serviceSelection _ => "ServiceSelection"
    | .sessionSetup => "SessionSetup"
    | .sessionStop _ => "SessionStop"
    | .vehicleCheckIn => "VehicleCheckIn"
    | .vehicleCheckOut => "VehicleCheckOut"

inductive Res where
  | authorization
  | authorizationSetup
  | certificateInstallation
  | meteringConfirmation
  | powerDelivery
  | scheduleExchange
  | serviceDetail
  | serviceDiscovery
  | serviceSelection
  | sessionSetup
  | sessionStop
  | vehicleCheckIn
  | vehicleCheckOut
  deriving DecidableEq, Repr

instance : Element Res where
  name
    | .authorization => "Authorization"
    | .authorizationSetup => "AuthorizationSetup"
    | .certificateInstallation => "CertificateInstallation"
    | .meteringConfirmation => "MeteringConfirmation"
    | .powerDelivery => "PowerDelivery"
    | .scheduleExchange => "ScheduleExchange"
    | .serviceDetail => "ServiceDetail"
    | .serviceDiscovery => "ServiceDiscovery"
    | .serviceSelection => "ServiceSelection"
    | .sessionSetup => "SessionSetup"
    | .sessionStop => "SessionStop"
    | .vehicleCheckIn => "VehicleCheckIn"
    | .vehicleCheckOut => "VehicleCheckOut"

inductive OtherElement where
  | signedInstallationData
  | signedMeteringData
  deriving DecidableEq, Repr

instance : Element OtherElement where
  name
    | .signedInstallationData => "SignedInstallationData"
    | .signedMeteringData => "SignedMeteringData"

abbrev Document := Iso20.Document Req Res OtherElement

end Messages

/-! ### The message sets of the services

One document type for each set. The sets share the shape of their documents, so their elements
are all that is listed. -/

namespace Ac

inductive Exchange where
  | chargeLoop
  | chargeParameterDiscovery
  deriving DecidableEq, Repr

instance : Element Exchange where
  name
    | .chargeLoop => "AC_ChargeLoop"
    | .chargeParameterDiscovery => "AC_ChargeParameterDiscovery"

inductive OtherElement where
  | acCpdReqEnergyTransferMode | acCpdResEnergyTransferMode | bptAcCpdReqEnergyTransferMode
  | bptAcCpdResEnergyTransferMode | bptDynamicAcClReqControlMode | bptDynamicAcClResControlMode
  | bptScheduledAcClReqControlMode | bptScheduledAcClResControlMode | dynamicAcClReqControlMode
  | dynamicAcClResControlMode | scheduledAcClReqControlMode | scheduledAcClResControlMode
  deriving DecidableEq, Repr

instance : Element OtherElement where
  name
    | .acCpdReqEnergyTransferMode => "AC_CPDReqEnergyTransferMode"
    | .acCpdResEnergyTransferMode => "AC_CPDResEnergyTransferMode"
    | .bptAcCpdReqEnergyTransferMode => "BPT_AC_CPDReqEnergyTransferMode"
    | .bptAcCpdResEnergyTransferMode => "BPT_AC_CPDResEnergyTransferMode"
    | .bptDynamicAcClReqControlMode => "BPT_Dynamic_AC_CLReqControlMode"
    | .bptDynamicAcClResControlMode => "BPT_Dynamic_AC_CLResControlMode"
    | .bptScheduledAcClReqControlMode => "BPT_Scheduled_AC_CLReqControlMode"
    | .bptScheduledAcClResControlMode => "BPT_Scheduled_AC_CLResControlMode"
    | .dynamicAcClReqControlMode => "Dynamic_AC_CLReqControlMode"
    | .dynamicAcClResControlMode => "Dynamic_AC_CLResControlMode"
    | .scheduledAcClReqControlMode => "Scheduled_AC_CLReqControlMode"
    | .scheduledAcClResControlMode => "Scheduled_AC_CLResControlMode"

/-- What the two sets for distributed energy resources add. -/
inductive DerElement where
  | derAcCpdReqEnergyTransferMode | derAcCpdResEnergyTransferMode | derDynamicAcClReqControlMode
  | derDynamicAcClResControlMode | derScheduledAcClReqControlMode | derScheduledAcClResControlMode
  deriving DecidableEq, Repr

instance : Element DerElement where
  name
    | .derAcCpdReqEnergyTransferMode => "DER_AC_CPDReqEnergyTransferMode"
    | .derAcCpdResEnergyTransferMode => "DER_AC_CPDResEnergyTransferMode"
    | .derDynamicAcClReqControlMode => "DER_Dynamic_AC_CLReqControlMode"
    | .derDynamicAcClResControlMode => "DER_Dynamic_AC_CLResControlMode"
    | .derScheduledAcClReqControlMode => "DER_Scheduled_AC_CLReqControlMode"
    | .derScheduledAcClResControlMode => "DER_Scheduled_AC_CLResControlMode"

inductive DerIecElement where
  | ac (element : OtherElement)
  | der (element : DerElement)
  deriving DecidableEq, Repr

instance : Element DerIecElement where
  name
    | .ac e => Element.name e
    | .der e => Element.name e

inductive DerSaeElement where
  | ac (element : OtherElement)
  | der (element : DerElement)
  | frequencyDroop
  deriving DecidableEq, Repr

instance : Element DerSaeElement where
  name
    | .ac e => Element.name e
    | .der e => Element.name e
    | .frequencyDroop => "FrequencyDroop"

abbrev Document := Iso20.Document Exchange Exchange OtherElement
abbrev DerIecDocument := Iso20.Document Exchange Exchange DerIecElement
abbrev DerSaeDocument := Iso20.Document Exchange Exchange DerSaeElement

end Ac

namespace Dc

inductive Exchange where
  | cableCheck
  | chargeLoop
  | chargeParameterDiscovery
  | preCharge
  | weldingDetection
  deriving DecidableEq, Repr

instance : Element Exchange where
  name
    | .cableCheck => "DC_CableCheck"
    | .chargeLoop => "DC_ChargeLoop"
    | .chargeParameterDiscovery => "DC_ChargeParameterDiscovery"
    | .preCharge => "DC_PreCharge"
    | .weldingDetection => "DC_WeldingDetection"

inductive OtherElement where
  | bptDcCpdReqEnergyTransferMode | bptDcCpdResEnergyTransferMode | bptDynamicDcClReqControlMode
  | bptDynamicDcClResControlMode | bptScheduledDcClReqControlMode | bptScheduledDcClResControlMode
  | dcCpdReqEnergyTransferMode | dcCpdResEnergyTransferMode | dynamicDcClReqControlMode
  | dynamicDcClResControlMode | scheduledDcClReqControlMode | scheduledDcClResControlMode
  deriving DecidableEq, Repr

instance : Element OtherElement where
  name
    | .bptDcCpdReqEnergyTransferMode => "BPT_DC_CPDReqEnergyTransferMode"
    | .bptDcCpdResEnergyTransferMode => "BPT_DC_CPDResEnergyTransferMode"
    | .bptDynamicDcClReqControlMode => "BPT_Dynamic_DC_CLReqControlMode"
    | .bptDynamicDcClResControlMode => "BPT_Dynamic_DC_CLResControlMode"
    | .bptScheduledDcClReqControlMode => "BPT_Scheduled_DC_CLReqControlMode"
    | .bptScheduledDcClResControlMode => "BPT_Scheduled_DC_CLResControlMode"
    | .dcCpdReqEnergyTransferMode => "DC_CPDReqEnergyTransferMode"
    | .dcCpdResEnergyTransferMode => "DC_CPDResEnergyTransferMode"
    | .dynamicDcClReqControlMode => "Dynamic_DC_CLReqControlMode"
    | .dynamicDcClResControlMode => "Dynamic_DC_CLResControlMode"
    | .scheduledDcClReqControlMode => "Scheduled_DC_CLReqControlMode"
    | .scheduledDcClResControlMode => "Scheduled_DC_CLResControlMode"

abbrev Document := Iso20.Document Exchange Exchange OtherElement

end Dc

namespace Wpt

inductive Exchange where
  | alignmentCheck
  | chargeLoop
  | chargeParameterDiscovery
  | finePositioning
  | finePositioningSetup
  | pairing
  deriving DecidableEq, Repr

instance : Element Exchange where
  name
    | .alignmentCheck => "WPT_AlignmentCheck"
    | .chargeLoop => "WPT_ChargeLoop"
    | .chargeParameterDiscovery => "WPT_ChargeParameterDiscovery"
    | .finePositioning => "WPT_FinePositioning"
    | .finePositioningSetup => "WPT_FinePositioningSetup"
    | .pairing => "WPT_Pairing"

abbrev Document := Iso20.Document Exchange Exchange Empty

end Wpt

namespace Acdp

inductive Exchange where
  | connect
  | disconnect
  | systemStatus
  | vehiclePositioning
  deriving DecidableEq, Repr

instance : Element Exchange where
  name
    | .connect => "ACDP_Connect"
    | .disconnect => "ACDP_Disconnect"
    | .systemStatus => "ACDP_SystemStatus"
    | .vehiclePositioning => "ACDP_VehiclePositioning"

abbrev Document := Iso20.Document Exchange Exchange Empty

end Acdp

end Iso20

end Iso15118.Message
