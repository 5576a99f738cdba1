import Ns3.Lte.LteRlcAmHeader.Basic
import Ns3.Library.Run

/-!
# The receiving side of RLC AM

A data PDU inside the receiving window is put in the reception buffer, and the state variables
move over the PDUs that are complete. A STATUS PDU tells the sender which numbers from VR(R) up to
VR(MS) are missing.

A PDU that is handed to `ReassembleAndDeliver` is added to `delivered`.
-/

namespace Ns3

/-- `PduBuffer`. -/
structure PduBuffer (α : Type) where
  byteSegments : List α
  pduComplete : Bool
  deriving DecidableEq

/-- The receiving side of `LteRlcAm`. A timer is the truth of its `IsRunning`. -/
structure LteRlcAmRx (α : Type) where
  rxonBuffer : Nat → Option (PduBuffer α) := fun _ => none
  vrR : SequenceNumber10 := .ofNat 0
  vrMr : SequenceNumber10 := (SequenceNumber10.ofNat 0).add 512
  vrX : SequenceNumber10 := .ofNat 0
  vrMs : SequenceNumber10 := .ofNat 0
  vrH : SequenceNumber10 := .ofNat 0
  reorderingTimer : Bool := false
  statusPduRequested : Bool := false
  statusPduBufferSize : Nat := 0
  statusProhibitTimer : Bool := false
  delivered : List α := []

namespace LteRlcAm

open SequenceNumber10 (less lessEq greaterEq greater)

variable {α : Type}

/-- `m_windowSize`. -/
def windowSize : Nat := 512

/-- The PDU with this number is in the buffer and complete. -/
def complete (s : LteRlcAmRx α) (sn : Nat) : Bool := (s.rxonBuffer sn).any PduBuffer.pduComplete

/-- `IsInsideReceivingWindow`; it also sets the bases of VR(R) and VR(MR). -/
def isInsideReceivingWindow (profile : BuildProfile) (seqNumber : SequenceNumber10)
    (s : LteRlcAmRx α) : Option (Bool × LteRlcAmRx α) := do
  let vrR := s.vrR.setModulusBase s.vrR
  let vrMr := s.vrMr.setModulusBase vrR
  let seqNumber := seqNumber.setModulusBase vrR
  let s := { s with vrR, vrMr }
  if ← lessEq profile vrR seqNumber then
    return (← less profile seqNumber vrMr, s)
  else return (false, s)

/-- The loop that moves a number over complete PDUs. The first number bounds the rounds. -/
def skipComplete (profile : BuildProfile) (s : LteRlcAmRx α) (first : Nat) :
    Nat → SequenceNumber10 → Option SequenceNumber10
  | 0, _ => none
  | rounds + 1, vr =>
    if complete s vr.value then do
      let vr := vr.incr
      nsAssert profile (first != vr.value)
      skipComplete profile s first rounds vr
    else some vr

/-- The PDU at VR(R) is delivered and erased, and VR(R) moves on with the bases. -/
def deliverOne (p : α) (s : LteRlcAmRx α) : LteRlcAmRx α :=
  let erased := s.vrR.value
  let vrR := s.vrR.incr
  let vrR := vrR.setModulusBase vrR
  { s with
    delivered := s.delivered ++ [p]
    rxonBuffer := fun sn => if sn = erased then none else s.rxonBuffer sn
    vrR
    vrX := s.vrX.setModulusBase vrR
    vrMs := s.vrMs.setModulusBase vrR
    vrH := s.vrH.setModulusBase vrR }

/-- The loop that delivers complete PDUs from VR(R) on. -/
def deliverFrom (profile : BuildProfile) (first : Nat) :
    Nat → LteRlcAmRx α → Option (LteRlcAmRx α)
  | 0, _ => none
  | rounds + 1, s =>
    match s.rxonBuffer s.vrR.value with
    | none => some s
    | some it =>
      if it.pduComplete then do
        nsAssert profile (it.byteSegments.length == 1)
        let p ← it.byteSegments.head?
        let s := deliverOne p s
        nsAssert profile (first != s.vrR.value)
        deliverFrom profile first rounds s
      else some s

/-- The PDU is placed in the buffer, unless one with its number is there. -/
def placePdu (profile : BuildProfile) (seqNumber : SequenceNumber10) (p : α) (s : LteRlcAmRx α) :
    Option (LteRlcAmRx α) :=
  match s.rxonBuffer seqNumber.value with
  | some it => do
      nsAssert profile (!it.byteSegments.isEmpty)
      nsAssert profile (it.byteSegments.length == 1)
      return s
  | none => some { s with
      rxonBuffer := fun sn => if sn = seqNumber.value then some ⟨[p], true⟩ else s.rxonBuffer sn }

/-- VR(H) is raised over the number. -/
def raiseVrH (profile : BuildProfile) (seqNumber : SequenceNumber10) (s : LteRlcAmRx α) :
    Option (LteRlcAmRx α) := do
  if ← greaterEq profile seqNumber s.vrH then return { s with vrH := seqNumber.add 1 }
  else return s

/-- VR(MS) moves over complete PDUs. -/
def moveVrMs (profile : BuildProfile) (s : LteRlcAmRx α) : Option (LteRlcAmRx α) := do
  let vrMs ← skipComplete profile s s.vrMs.value 1024 s.vrMs
  return { s with vrMs }

/-- VR(R) moves over complete PDUs, if the number is VR(R), and VR(MR) moves with it. -/
def moveVrR (profile : BuildProfile) (seqNumber : SequenceNumber10) (s : LteRlcAmRx α) :
    Option (LteRlcAmRx α) := do
  if seqNumber.value = s.vrR.value ∧ complete s seqNumber.value = true then
    let s ← deliverFrom profile s.vrR.value 1024 s
    return { s with vrMr := s.vrR.add windowSize }
  else return s

/-- t-Reordering is stopped, if it runs for numbers that VR(R) has passed. -/
def stopTimer (profile : BuildProfile) (s : LteRlcAmRx α) : Option (LteRlcAmRx α) := do
  if s.reorderingTimer then
    if s.vrX.value = s.vrR.value then return { s with reorderingTimer := false }
    else
      let (inside, s) ← isInsideReceivingWindow profile s.vrX s
      return { s with reorderingTimer := inside || s.vrX.value == s.vrMr.value }
  else return s

/-- t-Reordering is started, if it does not run and something is missing. -/
def startTimer (profile : BuildProfile) (s : LteRlcAmRx α) : Option (LteRlcAmRx α) := do
  if s.reorderingTimer then return s
  else if ← greater profile s.vrH s.vrR then
    return { s with reorderingTimer := true, vrX := s.vrH }
  else return s

/-- The actions for a PDU inside the window. -/
def acceptPdu (profile : BuildProfile) (seqNumber : SequenceNumber10) (p : α) (s : LteRlcAmRx α) :
    Option (LteRlcAmRx α) := do
  let s ← placePdu profile seqNumber p s
  let s ← raiseVrH profile seqNumber s
  let s ← moveVrMs profile s
  let s ← moveVrR profile seqNumber s
  let s ← stopTimer profile s
  startTimer profile s

/-- `DoReceivePdu`, for a data PDU. -/
def doReceivePdu (profile : BuildProfile) (rlcAmHeader : LteRlcAmHeader) (p : α)
    (s : LteRlcAmRx α) : Option (LteRlcAmRx α) := do
  let seqNumber := rlcAmHeader.sequenceNumber.setModulusBase s.vrR
  if rlcAmHeader.resegmentationFlag ≠ LteRlcAmHeader.segment ∧
      rlcAmHeader.resegmentationFlag ≠ LteRlcAmHeader.pdu then
    nsAssert profile false
    return s
  let s := if rlcAmHeader.pollingBit = 1 then
    { s with statusPduRequested := true, statusPduBufferSize := 4 } else s
  let (inside, s) ← isInsideReceivingWindow profile seqNumber s
  if inside then acceptPdu profile seqNumber p s
  else return s

/-- t-Reordering is started again, if something from VR(MS) on is missing. -/
def restartTimer (profile : BuildProfile) (s : LteRlcAmRx α) : Option (LteRlcAmRx α) := do
  if ← greater profile s.vrH s.vrMs then
    return { s with reorderingTimer := true, vrX := s.vrH }
  else return s

/-- `ExpireReorderingTimer`. -/
def expireReorderingTimer (profile : BuildProfile) (s : LteRlcAmRx α) :
    Option (LteRlcAmRx α) := do
  let vrMs ← skipComplete profile s s.vrX.value 1024 s.vrX
  let s ← restartTimer profile { s with vrMs, reorderingTimer := false }
  return { s with statusPduRequested := true }

/-! ## STATUS PDUs -/

/-- The loop over the numbers that may be missing. The first number bounds the rounds. -/
def nackLoop (profile : BuildProfile) (bytes : Nat) (s : LteRlcAmRx α) :
    Nat → SequenceNumber10 → LteRlcAmHeader → Option (SequenceNumber10 × LteRlcAmHeader)
  | 0, _, _ => none
  | rounds + 1, sn, rlcAmHeader => do
      if !(← less profile sn s.vrMs) then return (sn, rlcAmHeader)
      if !(← rlcAmHeader.oneMoreNackWouldFitIn profile bytes) then return (sn, rlcAmHeader)
      let rlcAmHeader ←
        if complete s sn.value then pure rlcAmHeader
        else rlcAmHeader.pushNack profile sn.value
      nackLoop profile bytes s rounds sn.incr rlcAmHeader

/-- The loop that looks for the first number not reported as missing. -/
def ackLoop (profile : BuildProfile) (s : LteRlcAmRx α) :
    Nat → SequenceNumber10 → Option SequenceNumber10
  | 0, _ => none
  | rounds + 1, sn => do
      if (← less profile sn s.vrMs) && complete s sn.value then
        ackLoop profile s rounds sn.incr
      else return sn

/-- The header of the STATUS PDU that `DoNotifyTxOpportunity` builds. -/
def statusHeader (profile : BuildProfile) (bytes : Nat) (s : LteRlcAmRx α) :
    Option LteRlcAmHeader := do
  let rlcAmHeader := ({} : LteRlcAmHeader).setControlPdu LteRlcAmHeader.statusPdu
  let (sn, rlcAmHeader) ← nackLoop profile bytes s 1024 s.vrR rlcAmHeader
  let sn ← ackLoop profile s 1024 sn
  let notAbove ← lessEq profile sn s.vrMs
  nsAssert profile notAbove
  return rlcAmHeader.setAckSn sn

/-- `DoNotifyTxOpportunity`, for a STATUS PDU: the header that is sent, if one is. -/
def doNotifyTxOpportunity (profile : BuildProfile) (bytes : Nat) (s : LteRlcAmRx α) :
    Option (Option LteRlcAmHeader × LteRlcAmRx α) := do
  if bytes < 4 then
    nsAssert profile false
    return (none, s)
  if s.statusPduRequested && !s.statusProhibitTimer then
    if bytes < s.statusPduBufferSize then
      nsAssert profile false
      return (none, s)
    let rlcAmHeader ← statusHeader profile bytes s
    return (some rlcAmHeader,
      { s with statusPduRequested := false, statusPduBufferSize := 0, statusProhibitTimer := true })
  else return (none, s)

/-! ## Runs -/

/-- An event of the receiving side. -/
inductive RxEvent (α : Type) where
  | receivePdu (resegmentationFlag pollingBit sn : Nat) (p : α)
  | expireReorderingTimer
  | notifyTxOpportunity (bytes : Nat)
  | expireStatusProhibitTimer
  deriving DecidableEq

/-- The header of a data PDU as far as it is read here. -/
def dataHeader (resegmentationFlag pollingBit sn : Nat) : LteRlcAmHeader :=
  { dataControlBit := LteRlcAmHeader.dataPdu, resegmentationFlag, pollingBit
    sequenceNumber := .ofNat sn }

/-- One event. A timer that does not run does not expire. -/
def rxStep (profile : BuildProfile) (s : LteRlcAmRx α) : RxEvent α → Option (LteRlcAmRx α)
  | .receivePdu resegmentationFlag pollingBit sn p =>
    doReceivePdu profile (dataHeader resegmentationFlag pollingBit sn) p s
  | .expireReorderingTimer => if s.reorderingTimer then expireReorderingTimer profile s else some s
  | .notifyTxOpportunity bytes => (doNotifyTxOpportunity profile bytes s).map Prod.snd
  | .expireStatusProhibitTimer => some { s with statusProhibitTimer := false }

end LteRlcAm

end Ns3
