import Ns3.Lte.LteRlcHeader
import Ns3.Core.Assert

/-!
# The header of an RLC AM PDU

A data PDU has a fixed part of four bytes and, as in `LteRlcHeader`, an extension bit and a length
indicator for each SDU but the last. A STATUS PDU has the acknowledged sequence number and a list
of numbers that are not acknowledged, each of them with two bits that say what follows: an odd
number of twelve-bit units ends inside a byte.
-/

namespace Ns3

/-- `LteRlcAmHeader`. The constructor does not set the last segment flag. -/
structure LteRlcAmHeader where
  headerLength : Nat := 0
  dataControlBit : Nat := 0xff
  resegmentationFlag : Nat := 0xff
  pollingBit : Nat := 0xff
  framingInfo : Nat := 0xff
  sequenceNumber : SequenceNumber10 := .ofNat 0xfffa
  lastSegmentFlag : Nat := 0
  segmentOffset : Nat := 0xffff
  lastOffset : Nat := 0xffff
  extensionBits : List Nat := []
  lengthIndicators : List Nat := []
  controlPduType : Nat := 0xff
  ackSn : SequenceNumber10 := .ofNat 0xffff
  nackSnList : List Nat := []
  deriving DecidableEq

namespace LteRlcAmHeader

/-- `DataControlPdu_t` and the type of a control PDU. -/
def controlPdu : Nat := 0
def dataPdu : Nat := 1
def statusPdu : Nat := 0

/-- `ExtensionBit_t`. -/
def dataFieldFollows : Nat := 0
def eLiFieldsFollows : Nat := 1

/-- `ResegmentationFlag_t`. -/
def pdu : Nat := 0
def segment : Nat := 1

/-- `SetDataPdu`. -/
def setDataPdu (h : LteRlcAmHeader) : LteRlcAmHeader :=
  { h with headerLength := 4, dataControlBit := dataPdu }

/-- `SetControlPdu`. -/
def setControlPdu (controlPduType : Nat) (h : LteRlcAmHeader) : LteRlcAmHeader :=
  { h with headerLength := 2, dataControlBit := controlPdu, controlPduType }

/-- `SetFramingInfo`. -/
def setFramingInfo (framingInfo : Nat) (h : LteRlcAmHeader) : LteRlcAmHeader :=
  { h with framingInfo := framingInfo &&& 0x03 }

/-- `SetSequenceNumber`. -/
def setSequenceNumber (sequenceNumber : SequenceNumber10) (h : LteRlcAmHeader) : LteRlcAmHeader :=
  { h with sequenceNumber }

/-- `SetResegmentationFlag`. -/
def setResegmentationFlag (resegFlag : Nat) (h : LteRlcAmHeader) : LteRlcAmHeader :=
  { h with resegmentationFlag := resegFlag &&& 0x01 }

/-- `SetPollingBit`. -/
def setPollingBit (pollingBit : Nat) (h : LteRlcAmHeader) : LteRlcAmHeader :=
  { h with pollingBit := pollingBit &&& 0x01 }

/-- `SetLastSegmentFlag`. -/
def setLastSegmentFlag (lsf : Nat) (h : LteRlcAmHeader) : LteRlcAmHeader :=
  { h with lastSegmentFlag := lsf &&& 0x01 }

/-- `SetSegmentOffset`. -/
def setSegmentOffset (segmentOffset : Nat) (h : LteRlcAmHeader) : LteRlcAmHeader :=
  { h with segmentOffset := segmentOffset &&& 0x7fff }

/-- `SetAckSn`. -/
def setAckSn (ackSn : SequenceNumber10) (h : LteRlcAmHeader) : LteRlcAmHeader := { h with ackSn }

/-- `PushExtensionBit`; the length of the header is kept in sixteen bits. -/
def pushExtensionBit (extensionBit : Nat) (h : LteRlcAmHeader) : LteRlcAmHeader :=
  let extensionBits := h.extensionBits ++ [extensionBit]
  { h with
    extensionBits
    headerLength :=
      if extensionBits.length > 1 then
        if extensionBits.length % 2 ≠ 0 then (h.headerLength + 1) % 65536
        else (h.headerLength + 2) % 65536
      else h.headerLength }

/-- `PushLengthIndicator`. -/
def pushLengthIndicator (lengthIndicator : Nat) (h : LteRlcAmHeader) : LteRlcAmHeader :=
  { h with lengthIndicators := h.lengthIndicators ++ [lengthIndicator % 65536] }

/-- The assertion of the methods that are for STATUS PDUs only. -/
def isStatusPdu (h : LteRlcAmHeader) : Bool :=
  h.dataControlBit == controlPdu && h.controlPduType == statusPdu

/-- `OneMoreNackWouldFitIn`; the argument is converted to sixteen bits. -/
def oneMoreNackWouldFitIn (profile : BuildProfile) (bytes : Nat) (h : LteRlcAmHeader) :
    Option Bool := do
  nsAssert profile h.isStatusPdu
  let bytes := bytes % 65536
  return if h.nackSnList.length % 2 = 0 then decide (h.headerLength < bytes)
    else decide ((h.headerLength : Int) < (bytes : Int) - 1)

/-- `PushNack`. -/
def pushNack (profile : BuildProfile) (nack : Nat) (h : LteRlcAmHeader) :
    Option LteRlcAmHeader := do
  nsAssert profile h.isStatusPdu
  let nackSnList := h.nackSnList ++ [nack]
  return { h with
    nackSnList
    headerLength :=
      if nackSnList.length % 2 = 0 then (h.headerLength + 1) % 65536
      else (h.headerLength + 2) % 65536 }

/-- `IsNackPresent`. -/
def isNackPresent (profile : BuildProfile) (nack : SequenceNumber10) (h : LteRlcAmHeader) :
    Option Bool := do
  nsAssert profile h.isStatusPdu
  return h.nackSnList.any fun nackIt => nackIt == nack.value

/-- `GetSerializedSize`. -/
def getSerializedSize (h : LteRlcAmHeader) : Nat := h.headerLength

/-! ## `Serialize` -/

/-- The loop over the NACKs. The first bit of the first one is written already. -/
def serializeNacks : List Nat → List Nat
  | [] => []
  | [oddNack] => [(oddNack >>> 1) &&& 0xff, (oddNack <<< 7) &&& 0x80]
  | [oddNack, evenNack] =>
    [(oddNack >>> 1) &&& 0xff,
      ((oddNack <<< 7) &&& 0x80) ||| 0x40 ||| ((evenNack >>> 5) &&& 0x1f),
      (evenNack <<< 3) &&& 0xf8]
  | oddNack :: evenNack :: nextNack :: rest =>
    [(oddNack >>> 1) &&& 0xff,
      ((oddNack <<< 7) &&& 0x80) ||| 0x40 ||| ((evenNack >>> 5) &&& 0x1f),
      ((evenNack <<< 3) &&& 0xf8) ||| 0x04 ||| ((nextNack >>> 9) &&& 0x01)] ++
    serializeNacks (nextNack :: rest)

/-- The bytes of a data PDU: the fixed part needs one extension bit. The loop over the length
indicators is the one of `LteRlcHeader`. -/
def serializeData (h : LteRlcAmHeader) : Option (List Nat) :=
  match h.extensionBits with
  | [] => none
  | e :: es =>
    some ([((dataPdu <<< 7) &&& 0x80) ||| ((h.resegmentationFlag <<< 6) &&& 0x40) |||
        ((h.pollingBit <<< 5) &&& 0x20) ||| ((h.framingInfo <<< 3) &&& 0x18) |||
        ((e <<< 2) &&& 0x04) ||| ((h.sequenceNumber.value >>> 8) &&& 0x03),
      h.sequenceNumber.value &&& 0xff,
      ((h.lastSegmentFlag <<< 7) &&& 0x80) ||| ((h.segmentOffset >>> 8) &&& 0x7f),
      h.segmentOffset &&& 0xff] ++ LteRlcHeader.serializeLi es h.lengthIndicators)

/-- The bytes of a control PDU. -/
def serializeControl (h : LteRlcAmHeader) : List Nat :=
  (((controlPdu <<< 7) &&& 0x80) ||| ((h.controlPduType <<< 4) &&& 0x70) |||
      ((h.ackSn.value >>> 6) &&& 0x0f)) ::
    match h.nackSnList with
    | [] => [(h.ackSn.value <<< 2) &&& 0xfc]
    | nack :: nacks =>
      (((h.ackSn.value <<< 2) &&& 0xfc) ||| 0x02 ||| ((nack >>> 9) &&& 0x01)) ::
        serializeNacks (nack :: nacks)

/-- `Serialize`: the bytes that are written. -/
def serialize (h : LteRlcAmHeader) : Option (List Nat) :=
  if h.dataControlBit = dataPdu then h.serializeData else some h.serializeControl

/-! ## `Deserialize` -/

/-- The loop over the length indicators, with the bytes that are left. -/
def deserializeLi : List Nat → LteRlcAmHeader → Option (LteRlcAmHeader × List Nat)
  | byte_1 :: byte_2 :: rest, h =>
    let oddE := (byte_1 &&& 0x80) >>> 7
    let oddLi := ((byte_1 &&& 0x7f) <<< 4) ||| ((byte_2 &&& 0xf0) >>> 4)
    let h := { h with
      extensionBits := h.extensionBits ++ [oddE]
      lengthIndicators := h.lengthIndicators ++ [oddLi]
      headerLength := (h.headerLength + 2) % 65536 }
    if oddE = eLiFieldsFollows then
      match rest with
      | [] => none
      | byte_3 :: rest =>
        let evenE := (byte_2 &&& 0x08) >>> 3
        let evenLi := ((byte_2 &&& 0x07) <<< 8) ||| (byte_3 &&& 0xff)
        let h := { h with
          extensionBits := h.extensionBits ++ [evenE]
          lengthIndicators := h.lengthIndicators ++ [evenLi]
          headerLength := (h.headerLength + 1) % 65536 }
        if evenE = eLiFieldsFollows then deserializeLi rest h else some (h, rest)
    else some (h, rest)
  | _, _ => none

/-- The rest of `Deserialize` for a data PDU, in a buffer of `size` bytes. -/
def deserializeData (size byte_1 : Nat) (h : LteRlcAmHeader) :
    List Nat → Option (LteRlcAmHeader × List Nat)
  | byte_2 :: byte_3 :: byte_4 :: rest => do
      let extensionBit := (byte_1 &&& 0x04) >>> 2
      let h := { h with
        headerLength := h.headerLength + 3
        resegmentationFlag := (byte_1 &&& 0x40) >>> 6
        pollingBit := (byte_1 &&& 0x20) >>> 5
        framingInfo := (byte_1 &&& 0x18) >>> 3
        sequenceNumber := h.sequenceNumber.assign (((byte_1 &&& 0x03) <<< 8) ||| byte_2)
        lastSegmentFlag := (byte_3 &&& 0x80) >>> 7
        segmentOffset := (byte_3 &&& 0x7f) ||| byte_4
        extensionBits := h.extensionBits ++ [extensionBit] }
      if extensionBit = dataFieldFollows then return (h, rest)
      let (h, rest) ←
        if extensionBit = eLiFieldsFollows then deserializeLi rest h else some (h, rest)
      return if h.resegmentationFlag = segment then
        ({ h with lastOffset := (h.segmentOffset + size + 65536 - h.headerLength) % 65536 }, rest)
      else (h, rest)
  | _ => none

/-- `m_nackSnList.push_back`. -/
def addNack (nack : Nat) (h : LteRlcAmHeader) : LteRlcAmHeader :=
  { h with nackSnList := h.nackSnList ++ [nack] }

/-- `m_headerLength`, with more bytes. -/
def addLength (bytes : Nat) (h : LteRlcAmHeader) : LteRlcAmHeader :=
  { h with headerLength := (h.headerLength + bytes) % 65536 }

/-- The loop over the NACKs after the first one, from the byte that has been read last. -/
def deserializeNacks (byte : Nat) :
    List Nat → LteRlcAmHeader → Option (LteRlcAmHeader × List Nat)
  | [], _ => none
  | nextByte :: rest, h =>
    let h := h.addNack (((byte &&& 0x1f) <<< 5) ||| ((nextByte &&& 0xf8) >>> 3))
    if (nextByte &&& 0x04) >>> 2 = 1 then
      match rest with
      | byte_3 :: finalByte :: rest =>
        let h := h.addNack
          (((nextByte &&& 0x01) <<< 9) ||| (byte_3 <<< 1) ||| ((finalByte &&& 0x80) >>> 7))
        let h := h.addLength 3
        if (finalByte &&& 0x40) >>> 6 = 1 then deserializeNacks finalByte rest h
        else some (h, rest)
      | _ => none
    else some (h.addLength 1, rest)

/-- The rest of `Deserialize` for a control PDU. -/
def deserializeControl (byte_1 : Nat) (h : LteRlcAmHeader) :
    List Nat → Option (LteRlcAmHeader × List Nat)
  | [] => none
  | byte_2 :: rest =>
    let h := { h with
      controlPduType := (byte_1 &&& 0x70) >>> 4
      ackSn := h.ackSn.assign (((byte_1 &&& 0x0f) <<< 6) ||| ((byte_2 &&& 0xfc) >>> 2)) }
    if (byte_2 &&& 0x02) >>> 1 = 1 then
      match rest with
      | byte_3 :: byte_4 :: rest =>
        let h := { h with headerLength := 4 }
        let h := h.addNack
          (((byte_2 &&& 0x01) <<< 9) ||| (byte_3 <<< 1) ||| ((byte_4 &&& 0x80) >>> 7))
        if (byte_4 &&& 0x40) >>> 6 = 1 then deserializeNacks byte_4 rest h
        else some (h, rest)
      | _ => none
    else some (h.addLength 1, rest)

/-- `Deserialize` into a new header, with the bytes that are left. -/
def deserialize : List Nat → Option (LteRlcAmHeader × List Nat)
  | [] => none
  | byte_1 :: rest =>
    let h : LteRlcAmHeader := { headerLength := 1, dataControlBit := (byte_1 &&& 0x80) >>> 7 }
    if h.dataControlBit = dataPdu then deserializeData (rest.length + 1) byte_1 h rest
    else deserializeControl byte_1 h rest

end LteRlcAmHeader

end Ns3
