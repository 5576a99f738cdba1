import Ns3.Lte.LteRlcAm.Receive
import Ns3.Lte.LteRlcAmHeader.DataPdu
import Ns3.Lte.LteRlcUm.Transmit
import Mathlib.Logic.Function.Basic

/-!
# The transmitting side of RLC AM

A PDU that has been sent is kept in the buffer of transmitted PDUs until it is acknowledged. A
NACK, or the expiry of t-PollRetransmit, moves it to the retransmission buffer, and a
retransmission moves it back. Both buffers have a place for each sequence number.

An opportunity that goes to a STATUS PDU changes nothing on this side and is not an event here.
-/

namespace Ns3

/-- A data PDU as it is kept: its header, as it was built, and the data after it. -/
structure AmPdu (α : Type) where
  header : LteRlcAmHeader
  data : List α
  deriving DecidableEq

/-- `GetSize`. -/
def AmPdu.size {α : Type} (p : AmPdu α) : Nat := p.header.getSerializedSize + p.data.length

/-- `RetxPdu`. -/
structure RetxPdu (α : Type) where
  pdu : Option (AmPdu α) := none
  retxCount : Nat := 0
  deriving DecidableEq

/-- The transmitting side of `LteRlcAm`. A timer is the truth of its `IsRunning`. -/
structure LteRlcAmTx (α : Type) where
  maxTxBufferSize : Nat := 10 * 1024
  txOpportunityForRetxAlwaysBigEnough : Bool := false
  txonBuffer : List (TxPdu α) := []
  txonBufferSize : Nat := 0
  txedBuffer : Nat → RetxPdu α := fun _ => {}
  txedBufferSize : Nat := 0
  retxBuffer : Nat → RetxPdu α := fun _ => {}
  retxBufferSize : Nat := 0
  vtA : SequenceNumber10 := .ofNat 0
  vtMs : SequenceNumber10 := (SequenceNumber10.ofNat 0).add 512
  vtS : SequenceNumber10 := .ofNat 0
  pollSn : SequenceNumber10 := .ofNat 0
  pduWithoutPoll : Nat := 0
  byteWithoutPoll : Nat := 0
  pollRetransmitTimer : Bool := false
  pollRetransmitTimerJustExpired : Bool := false

namespace LteRlcAmTx

open LteRlcAm (windowSize)
open SequenceNumber10 (less lessEq greaterEq)

variable {α : Type}

/-- `m_pollPdu` and `m_pollByte`. -/
def pollPdu : Nat := 1
def pollByte : Nat := 50

/-- `DoTransmitPdcpPdu`. -/
def doTransmitPdcpPdu (p : List α) (s : LteRlcAmTx α) : LteRlcAmTx α :=
  if UInt32.add s.txonBufferSize p.length ≤ s.maxTxBufferSize ∨ s.maxTxBufferSize = 0 then
    { s with
      txonBuffer := s.txonBuffer ++ [⟨.fullSdu, p⟩]
      txonBufferSize := UInt32.add s.txonBufferSize p.length }
  else s

/-! ## `DoNotifyTxOpportunity` -/

/-- The polling bit is to be set: if `due`, or if the window is used up or the timer has expired. -/
def needsPoll (profile : BuildProfile) (due : Bool) (s : LteRlcAmTx α) : Option Bool :=
  if due then some true
  else (greaterEq profile s.vtS s.vtMs).map fun stalled =>
    stalled || s.pollRetransmitTimerJustExpired

/-- The polling bit. Where it is set, the counters start again, and so does the timer. -/
def poll (profile : BuildProfile) (due : Bool) (rlcAmHeader : LteRlcAmHeader)
    (s : LteRlcAmTx α) : Option (LteRlcAmHeader × LteRlcAmTx α) := do
  if ← needsPoll profile due s then
    return (rlcAmHeader.setPollingBit 1,
      { s with
        pollRetransmitTimerJustExpired := false
        pduWithoutPoll := 0
        byteWithoutPoll := 0
        pollSn := s.vtS.sub 1
        pollRetransmitTimer := true })
  else return (rlcAmHeader.setPollingBit 0, s)

/-- The loop over the retransmission buffer: the first PDU that is there, with its number. -/
def findRetx (profile : BuildProfile) (s : LteRlcAmTx α) :
    Nat → SequenceNumber10 → Option (Option (Nat × AmPdu α))
  | 0, _ => none
  | rounds + 1, sn => do
      if ← less profile sn s.vtS then
        match (s.retxBuffer sn.value).pdu with
        | some p => return some (sn.value, p)
        | none => findRetx profile s rounds sn.incr
      else return none

/-- The PDU is moved back to the buffer of transmitted PDUs. -/
def moveToTxed (sn : Nat) (p : AmPdu α) (s : LteRlcAmTx α) : LteRlcAmTx α :=
  { s with
    txedBuffer := Function.update s.txedBuffer sn
      ⟨some p, ((s.retxBuffer sn).retxCount + 1) % 65536⟩
    txedBufferSize := UInt32.add s.txedBufferSize p.size
    retxBufferSize := UInt32.sub s.retxBufferSize p.size
    retxBuffer := Function.update s.retxBuffer sn {} }

/-- The PDU is sent again, with a new polling bit, if the opportunity is big enough. -/
def retransmit (profile : BuildProfile) (bytes sn : Nat) (p : AmPdu α) (s : LteRlcAmTx α) :
    Option (LteRlcAmTx α × Option (AmPdu α)) := do
  if p.size ≤ bytes ∨ s.txOpportunityForRetxAlwaysBigEnough = true then
    let due := s.txonBuffer.isEmpty && s.retxBufferSize == p.size
    let (rlcAmHeader, s) ← poll profile due p.header s
    return (moveToTxed sn p s, some { p with header := rlcAmHeader })
  else return (s, none)

/-- The data field, which is taken from the transmission buffer, and the header without the flags.
The loop is the one of RLC UM, on the members of the header that it changes. -/
def takeSdus (bytes : Nat) (firstSegment : TxPdu α) (rest : List (TxPdu α)) (s : LteRlcAmTx α) :
    List (TxPdu α) × LteRlcAmHeader × LteRlcAmTx α :=
  let rlcAmHeader := ({} : LteRlcAmHeader).setDataPdu
  let d := LteRlcUm.fillDataField firstSegment rest
    (UInt32.sub s.txonBufferSize firstSegment.pdu.length) (bytes - 4) 1 [] rlcAmHeader.lists
  (d.dataField, rlcAmHeader.withLists d.rlcHeader,
    { s with txonBuffer := d.txBuffer, txonBufferSize := d.txBufferSize })

/-- VT(S) is given to the PDU and moves on. -/
def takeNumber (profile : BuildProfile) (s : LteRlcAmTx α) :
    Option (SequenceNumber10 × LteRlcAmTx α) := do
  let sn := s.vtS
  let s := { s with vtS := s.vtS.incr }
  let below ← less profile sn s.vtMs
  nsAssert profile below
  let above ← greaterEq profile sn s.vtA
  nsAssert profile above
  return (sn, s)

/-- The new PDU is stored. -/
def store (sn : Nat) (p : AmPdu α) (s : LteRlcAmTx α) : LteRlcAmTx α :=
  { s with
    txedBufferSize := UInt32.add s.txedBufferSize p.size
    txedBuffer := Function.update s.txedBuffer sn ⟨some p, 0⟩ }

/-- The flags of the header, and the polling bit; then the PDU is stored. The data field is read
from its first segment on. -/
def finishPdu (profile : BuildProfile) (dataField : List (TxPdu α)) (rlcAmHeader : LteRlcAmHeader)
    (sn : SequenceNumber10) (s : LteRlcAmTx α) : Option (LteRlcAmTx α × Option (AmPdu α)) := do
  let first ← dataField.head?
  let last ← dataField.getLast?
  let rlcAmHeader := ((((rlcAmHeader.setSequenceNumber sn).setResegmentationFlag
    LteRlcAmHeader.pdu).setLastSegmentFlag 1).setSegmentOffset 0).setFramingInfo
    (LteRlcUm.framingInfo first.status last.status)
  let data := dataField.flatMap (·.pdu)
  let s := { s with
    pduWithoutPoll := UInt32.add s.pduWithoutPoll 1
    byteWithoutPoll := UInt32.add s.byteWithoutPoll data.length }
  let due := pollPdu ≤ s.pduWithoutPoll || pollByte ≤ s.byteWithoutPoll ||
    (s.txonBuffer.isEmpty && s.retxBufferSize == 0)
  let (rlcAmHeader, s) ← poll profile due rlcAmHeader s
  return (store sn.value ⟨rlcAmHeader, data⟩ s, some ⟨rlcAmHeader, data⟩)

/-- A new PDU is built from the transmission buffer. -/
def buildPdu (profile : BuildProfile) (bytes : Nat) (s : LteRlcAmTx α) :
    Option (LteRlcAmTx α × Option (AmPdu α)) :=
  match s.txonBuffer with
  | [] => some (s, none)
  | firstSegment :: rest => do
      let (dataField, rlcAmHeader, s) := takeSdus bytes firstSegment rest s
      let (sn, s) ← takeNumber profile s
      finishPdu profile dataField rlcAmHeader sn s

/-- `DoNotifyTxOpportunity`, for data: the PDU that is sent, if one is. Where the retransmission
buffer is empty against its size, a release build goes on to a new PDU. -/
def doNotifyTxOpportunity (profile : BuildProfile) (bytes : Nat) (s : LteRlcAmTx α) :
    Option (LteRlcAmTx α × Option (AmPdu α)) := do
  if bytes < 4 then
    nsAssert profile false
    return (s, none)
  if s.retxBufferSize > 0 then
    let some_ ← less profile s.vtA s.vtS
    nsAssert profile some_
    match ← findRetx profile s 1024 s.vtA with
    | some (sn, p) => retransmit profile bytes sn p s
    | none =>
      nsAssert profile false
      buildPdu profile bytes s
  else if s.txonBufferSize > 0 then
    if bytes < 7 then
      nsAssert profile false
      return (s, none)
    let notAbove ← lessEq profile s.vtS s.vtMs
    nsAssert profile notAbove
    if s.vtS.value = s.vtMs.value then return (s, none)
    buildPdu profile bytes s
  else return (s, none)

/-! ## STATUS PDUs -/

/-- The PDU is moved to the retransmission buffer. -/
def moveToRetx (sn : Nat) (p : AmPdu α) (s : LteRlcAmTx α) : LteRlcAmTx α :=
  { s with
    retxBuffer := Function.update s.retxBuffer sn ⟨some p, (s.txedBuffer sn).retxCount⟩
    retxBufferSize := UInt32.add s.retxBufferSize p.size
    txedBufferSize := UInt32.sub s.txedBufferSize p.size
    txedBuffer := Function.update s.txedBuffer sn {} }

/-- A PDU with this number is moved to the retransmission buffer, if it is among the transmitted
ones. -/
def considerForRetx (sn : Nat) (s : LteRlcAmTx α) : LteRlcAmTx α :=
  match (s.txedBuffer sn).pdu with
  | some p => moveToRetx sn p s
  | none => s

/-- The actions for a number that is NACKed. -/
def nacked (profile : BuildProfile) (sn : Nat) (s : LteRlcAmTx α) : Option (LteRlcAmTx α) := do
  let s := considerForRetx sn s
  nsAssert profile (s.retxBuffer sn).pdu.isSome
  return s

/-- The PDU is taken from the buffer of transmitted PDUs; its count of retransmissions stays. -/
def dropTxed (profile : BuildProfile) (sn : Nat) (s : LteRlcAmTx α) : Option (LteRlcAmTx α) :=
  match (s.txedBuffer sn).pdu with
  | some p => do
      let s := { s with
        txedBufferSize := UInt32.sub s.txedBufferSize p.size
        txedBuffer := Function.update s.txedBuffer sn ⟨none, (s.txedBuffer sn).retxCount⟩ }
      nsAssert profile (s.retxBuffer sn).pdu.isNone
      return s
  | none => some s

/-- The PDU is taken from the retransmission buffer. -/
def dropRetx (sn : Nat) (s : LteRlcAmTx α) : LteRlcAmTx α :=
  match (s.retxBuffer sn).pdu with
  | some p =>
    { s with
      retxBufferSize := UInt32.sub s.retxBufferSize p.size
      retxBuffer := Function.update s.retxBuffer sn {} }
  | none => s

/-- The actions for a number that is acknowledged. -/
def acked (profile : BuildProfile) (sn : Nat) (s : LteRlcAmTx α) : Option (LteRlcAmTx α) := do
  let s ← dropTxed profile sn s
  return dropRetx sn s

/-- t-PollRetransmit is stopped by a report about POLL_SN. -/
def stopTimer (sn : Nat) (s : LteRlcAmTx α) : LteRlcAmTx α :=
  if s.pollRetransmitTimer && sn == s.pollSn.value then { s with pollRetransmitTimer := false }
  else s

/-- The bases of the state variables are set to VT(A). -/
def setBases (s : LteRlcAmTx α) : LteRlcAmTx α :=
  let vtA := s.vtA.setModulusBase s.vtA
  { s with vtA, vtS := s.vtS.setModulusBase vtA, vtMs := s.vtMs.setModulusBase vtA }

/-- VT(A) moves on, and VT(MS) with it. -/
def raiseVtA (s : LteRlcAmTx α) : LteRlcAmTx α :=
  let vtA := s.vtA.incr
  setBases { s with vtA, vtMs := vtA.add windowSize }

/-- The loop over the numbers from VT(A) on. -/
def statusLoop (profile : BuildProfile) (rlcAmHeader : LteRlcAmHeader) :
    Nat → SequenceNumber10 → SequenceNumber10 → Bool → LteRlcAmTx α → Option (LteRlcAmTx α)
  | 0, _, _, _, _ => none
  | rounds + 1, sn, ackSn, incrementVtA, s => do
      if !(← less profile sn ackSn) then return s
      if !(← less profile sn s.vtS) then return s
      let s := stopTimer sn.value s
      let nack ← rlcAmHeader.isNackPresent profile sn
      let s ← if nack then nacked profile sn.value s else acked profile sn.value s
      if incrementVtA && !nack then
        let s := raiseVtA s
        statusLoop profile rlcAmHeader rounds (sn.setModulusBase s.vtA).incr
          (ackSn.setModulusBase s.vtA) true s
      else statusLoop profile rlcAmHeader rounds sn.incr ackSn false s

/-- `DoReceivePdu`, for a STATUS PDU. -/
def doReceivePdu (profile : BuildProfile) (rlcAmHeader : LteRlcAmHeader) (s : LteRlcAmTx α) :
    Option (LteRlcAmTx α) :=
  let s := setBases s
  statusLoop profile rlcAmHeader 1024 s.vtA (rlcAmHeader.ackSn.setModulusBase s.vtA) true s

/-! ## `ExpirePollRetransmitTimer` -/

/-- The loop over all numbers up to VT(S). -/
def retxLoop (profile : BuildProfile) :
    Nat → SequenceNumber10 → LteRlcAmTx α → Option (LteRlcAmTx α)
  | 0, _, _ => none
  | rounds + 1, sn, s => do
      if ← less profile sn s.vtS then
        retxLoop profile rounds sn.incr (considerForRetx sn.value s)
      else return s

/-- `ExpirePollRetransmitTimer`. -/
def expirePollRetransmitTimer (profile : BuildProfile) (s : LteRlcAmTx α) :
    Option (LteRlcAmTx α) := do
  let s := { s with pollRetransmitTimer := false, pollRetransmitTimerJustExpired := true }
  let notAbove ← lessEq profile s.vtS s.vtMs
  nsAssert profile notAbove
  if s.txonBufferSize = 0 ∧ s.retxBufferSize = 0 ∨ s.vtS.value = s.vtMs.value then
    retxLoop profile 1024 s.vtA s
  else return s

/-! ## Events -/

/-- An event of the transmitting side. -/
inductive Event (α : Type) where
  | transmitPdcpPdu (p : List α)
  | notifyTxOpportunity (bytes : Nat)
  | receiveStatus (ackSn : Nat) (nackSnList : List Nat)
  | expirePollRetransmitTimer
  deriving DecidableEq

/-- The header of a STATUS PDU as far as it is read here. -/
def statusHeader (ackSn : Nat) (nackSnList : List Nat) : LteRlcAmHeader :=
  { ({} : LteRlcAmHeader).setControlPdu LteRlcAmHeader.statusPdu with
    ackSn := .ofNat ackSn
    nackSnList }

/-- One event. A timer that does not run does not expire. -/
def step (profile : BuildProfile) (s : LteRlcAmTx α) : Event α → Option (LteRlcAmTx α)
  | .transmitPdcpPdu p => some (doTransmitPdcpPdu p s)
  | .notifyTxOpportunity bytes => (doNotifyTxOpportunity profile bytes s).map Prod.fst
  | .receiveStatus ackSn nackSnList => doReceivePdu profile (statusHeader ackSn nackSnList) s
  | .expirePollRetransmitTimer =>
    if s.pollRetransmitTimer then expirePollRetransmitTimer profile s else some s

end LteRlcAmTx

end Ns3
