import Ns3.Internet.TcpRxBuffer.Basic
import Ns3.Internet.TcpSocketBase.Options
import Ns3.Internet.TcpSocketState
import Ns3.Library.Extended
import Mathlib.Algebra.Order.Ring.Rat

/-!
# The receiving side of a TCP socket

`ReceivedData` with what it calls, the delayed acknowledgement and its timer, and the
two handlers of a FIN. The receive buffer is the real one.

The delay of an acknowledgement adapts to the times between packets. These are
`double` members of the socket; here they are exact numbers, with the infinity they
start with and the undefined results that it can lead to. When the timer expires is
decided by the run, not by `GetDelayTimeout`: it can expire whenever it is running.
-/

namespace Ns3.TcpSocketBase

/-- The two functions that ask for the time ratio. -/
inductive RatioCaller where
  | receivedData
  | delAckTimeout
  deriving DecidableEq

/-- The attributes and members of the adaptive delay, with what an observer has seen of
them: the results of `GetTimeRatio`, and each value of `m_dwnd` that `UpdateDelayWindow`
or the reset for an out-of-order packet has left, with what the peer can send then.
Nothing reads these two. -/
structure AckDelay where
  lambda : ℚ := 3
  iatThreshold : ℚ := 1 / 20000
  adwEnabled : Bool := false
  aadEnabled : Bool := false
  delAckMaxCount : BitVec 32 := 2
  baseIat : Extended ℚ := .posInf
  iat : Extended ℚ := .posInf
  /-- `Time::Min ()` is `none`. Times are in nanoseconds. -/
  lastPacketTime : Option Int := none
  lastUpdate : Int := 0
  dwnd : Extended ℚ := .finite 3
  ratios : List (RatioCaller × Extended ℚ) := []
  windows : List (Extended ℚ × BitVec 32) := []

/-- What an observer has seen of the receive buffer and of the acknowledgements: the
segments given to `Add`, the arguments of `SetFinSequence`, and the flags and
acknowledgement numbers of the empty packets sent. Nothing reads it. -/
structure ReceiverTrace where
  added : List (Packet × SequenceNumber32) := []
  fins : List SequenceNumber32 := []
  sent : List (Byte × SequenceNumber32) := []

/-- The members of `TcpSocketBase` that the receiving side uses. -/
structure Receiver where
  delay : AckDelay := {}
  options : OptionState := {}
  rxBuffer : TcpRxBuffer
  advWnd : BitVec 32 := 0
  delAckCount : BitVec 32 := 0
  /-- Whether `m_delAckEvent` is scheduled. -/
  delAckRunning : Bool := false
  state : TcpState := .established
  ecnState : EcnState := .ecnDisabled
  hasEndPoint : Bool := true
  shutdownRecv : Bool := false
  shutdownSend : Bool := false
  closeNotified : Bool := false
  closeOnEmpty : Bool := false
  /-- Whether there is data to send behind `m_nextTxSequence`. -/
  unsent : Bool := false
  trace : ReceiverTrace := {}

/-- What the application reads when it is told of data, and of the end of it: the
arguments of its calls of `Recv`. -/
structure Application where
  onData : List Nat := []
  onClose : List Nat := []

namespace AckDelay

/-- `m_lambda * GetSegSize ()`. -/
def minimum (segSize : BitVec 32) (d : AckDelay) : Extended ℚ := .finite (d.lambda * segSize.toNat)

/-- `GetTimeRatio`. -/
def getTimeRatio (d : AckDelay) : Extended ℚ :=
  let timeRatio :=
    if d.iat.lt (.finite d.lambda * d.baseIat) then (d.baseIat - d.iat) / d.baseIat
    else .finite (1 - d.lambda)
  (timeRatio + .finite (d.lambda - 1)) / .finite d.lambda

/-- The result of `GetTimeRatio` is seen. -/
def observed (caller : RatioCaller) (d : AckDelay) : AckDelay :=
  { d with ratios := (caller, d.getTimeRatio) :: d.ratios }

/-- `GetSeconds` of a time in nanoseconds. -/
def seconds (t : Int) : ℚ := t / 1000000000

/-- `m_baseIat` starts anew every second, only in case of TCP-AAD. -/
def resetBaseIat (now : Int) (d : AckDelay) : AckDelay :=
  if d.aadEnabled ∧ 1 < seconds (now - d.lastUpdate) then
    { d with baseIat := .posInf, lastUpdate := now }
  else d

/-- The smallest inter-arrival time, with one that is not too small to count. -/
def updateBaseIat (now : Int) (d : AckDelay) : AckDelay :=
  let d := d.resetBaseIat now
  { d with baseIat := .min d.iat d.baseIat }

/-- The assignment of `UpdateDelayWindow`. -/
def updated (theta : Extended ℚ) (cwndDiff segSize R : BitVec 32) (d : AckDelay) : Extended ℚ :=
  if 0 < cwndDiff.toInt then
    .min (d.dwnd + (.finite 1 - theta) * .finite segSize.toNat) (.finite R.toNat)
  else if cwndDiff.toInt < 0 then d.minimum segSize
  else d.dwnd

/-- The assignment of `DelAckTimeout`. -/
def backedOff (segSize : BitVec 32) (d : AckDelay) : Extended ℚ :=
  .max (d.minimum segSize) (d.dwnd - (.finite 1 - d.getTimeRatio))

/-- A value of `m_dwnd` that is seen, with the bound at that time. -/
def setWindow (dwnd : Extended ℚ) (bound : BitVec 32) (d : AckDelay) : AckDelay :=
  { d with dwnd, windows := (dwnd, bound) :: d.windows }

/-- `DelayWindow`. -/
def delayWindow (segSize : BitVec 32) (d : AckDelay) : Extended ℚ :=
  if d.adwEnabled then d.dwnd / .finite segSize.toNat
  else if d.aadEnabled then .posInf
  else .finite d.delAckMaxCount.toNat

end AckDelay

namespace Receiver

variable (profile : BuildProfile)

/-! ## Windows and empty packets -/

def segSize (s : Receiver) : BitVec 32 := s.options.segmentSize

/-- The window before it is scaled: the last one, if a FIN has been received. -/
def space (s : Receiver) : BitVec 32 :=
  if s.rxBuffer.gotFin then s.advWnd
  else s.rxBuffer.maxRxSequence.sub s.rxBuffer.nextRxSeq

/-- `AdvertisedWindowSize`: `m_advWnd` is only traced, and updated on the way. -/
def advertisedWindowSize (scale : Bool) (s : Receiver) : Option (BitVec 16 × Receiver) := do
  nsAssert profile (s.rxBuffer.gotFin || 0 ≤ s.space.toInt)
  return (TcpSocketBase.advertisedWindowSize scale s.space s.options, { s with advWnd := s.space })

/-- What the peer is allowed to have outstanding:
`std::min (m_rcvCwndValue, AdvertisedWindowSize (false))`. -/
def bound (s : Receiver) : BitVec 32 :=
  let advertised := (TcpSocketBase.advertisedWindowSize false s.space s.options).setWidth 32
  if advertised < s.options.rcvCwndValue then advertised else s.options.rcvCwndValue

/-- The delayed acknowledgement is not needed any more. -/
def cancelDelAck (s : Receiver) : Receiver :=
  { s with delAckRunning := false, delAckCount := 0 }

/-- A segment with an acknowledgement number is sent. -/
def acked (s : Receiver) : Receiver :=
  { s.cancelDelAck with
    options.highTxAck := if s.options.highTxAck.lt s.rxBuffer.nextRxSeq then s.rxBuffer.nextRxSeq
      else s.options.highTxAck }

/-- `SendEmptyPacket`, without SYN. -/
def sendEmptyPacket (flags : Byte) (s : Receiver) : Option Receiver :=
  if !s.hasEndPoint then some s
  else do
    let flags := if flags &&& TcpHeader.FIN ≠ 0 then flags ||| TcpHeader.ACK else flags
    let (_, s) ← s.advertisedWindowSize profile true
    let s := if flags &&& TcpHeader.ACK ≠ 0 then s.acked else s
    return { s with trace.sent := (flags, s.rxBuffer.nextRxSeq) :: s.trace.sent }

/-- An acknowledgement, with the echo of a congestion mark if there is one to echo. -/
def acknowledge (s : Receiver) : Option Receiver :=
  if s.ecnState = .ecnCeRcvd ∨ s.ecnState = .ecnSendingEce then do
    let s ← s.sendEmptyPacket profile (TcpHeader.ACK ||| TcpHeader.ECE)
    return { s with ecnState := .ecnSendingEce }
  else s.sendEmptyPacket profile TcpHeader.ACK

/-! ## The application -/

/-- `Recv`. -/
def recv (maxSize : Nat) (s : Receiver) : Option Receiver :=
  if s.rxBuffer.size = 0 ∧ s.state = .closeWait then some s
  else do
    let (rxBuffer, _) ← s.rxBuffer.extract profile maxSize
    return { s with rxBuffer }

/-- The application reads from a callback. -/
def read (sizes : List Nat) (s : Receiver) : Option Receiver :=
  sizes.foldlM (fun s n => s.recv profile n) s

/-! ## Closing -/

/-- `SendRST`. -/
def sendRST (s : Receiver) : Option Receiver := do
  let s ← s.sendEmptyPacket profile TcpHeader.RST
  return { s with hasEndPoint := false, delAckRunning := false }

/-- `NotifyNormalClose`, once. -/
def notifyClose (app : Application) (s : Receiver) : Option Receiver :=
  if s.closeNotified then some s
  else do
    let s ← s.read profile app.onClose
    return { s with closeNotified := true }

/-- `CloseAndNotify`. -/
def closeAndNotify (app : Application) (s : Receiver) : Option Receiver := do
  let s ← s.notifyClose profile app
  return { s with state := .closed, hasEndPoint := false, delAckRunning := false }

/-- `DoClose`. -/
def doClose (app : Application) (s : Receiver) : Option Receiver :=
  match s.state with
  | .synRcvd | .established => do
      let s ← s.sendEmptyPacket profile TcpHeader.FIN
      return { s with state := .finWait1 }
  | .closeWait => do
      let s ← s.sendEmptyPacket profile (TcpHeader.FIN ||| TcpHeader.ACK)
      return { s with state := .lastAck }
  | .synSent | .closing => do
      let s ← s.sendRST profile
      s.closeAndNotify profile app
  | .listen => s.closeAndNotify profile app
  | _ => some s

/-- `Close`. -/
def close (app : Application) (s : Receiver) : Option Receiver :=
  if s.rxBuffer.size ≠ 0 then s.sendRST profile
  else if s.unsent then some { s with closeOnEmpty := true }
  else s.doClose profile app

/-- `DoPeerClose`. -/
def doPeerClose (app : Application) (s : Receiver) : Option Receiver := do
  nsAssert profile (s.state == .established || s.state == .synRcvd || s.state == .finWait1 ||
    s.state == .finWait2)
  let s ← { s with state := .closeWait }.notifyClose profile app
  if s.shutdownSend then s.close profile app else s.sendEmptyPacket profile TcpHeader.ACK

/-! ## Data -/

/-- `UpdateDelayWindow`. -/
def updateDelayWindow (theta : Extended ℚ) (s : Receiver) : Option Receiver := do
  let R := s.bound
  let (_, s) ← s.advertisedWindowSize profile false
  let dwnd := s.delay.updated theta s.options.cwndDiff s.segSize R
  return { s with delay := s.delay.setWindow dwnd R }

/-- An inter-arrival time that is not too small to count. -/
def count (now : Int) (s : Receiver) : Option Receiver :=
  let s := { s with delay := s.delay.updateBaseIat now }
  { s with delay := s.delay.observed .receivedData }.updateDelayWindow profile s.delay.getTimeRatio

/-- The first part of `ReceivedData`: the time since the last packet, and the delay
window after it. -/
def arrive (now : Int) (s : Receiver) : Option Receiver :=
  match s.delay.lastPacketTime with
  | none => some { s with
      delay.dwnd := s.delay.minimum s.segSize
      delay.lastPacketTime := some now }
  | some last =>
    let iat := AckDelay.seconds (now - last)
    let s := { s with delay.iat := .finite iat }
    (if s.delay.iatThreshold ≤ iat then s.count profile now else some s).map fun s =>
      { s with delay.lastPacketTime := some now }

/-- What becomes of a packet in the receive buffer. -/
inductive Stored where
  /-- Nothing of it is inserted. -/
  | refused
  /-- It completes the data before a FIN. -/
  | complete
  /-- There is a gap in the buffer, or one has been filled. -/
  | outOfOrder
  | inSequence
  deriving DecidableEq

/-- `NotifyDataRecv`, if there is data for the application and it wants any. -/
def notifyDataRecv (advanced : Bool) (app : Application) (s : Receiver) : Option Receiver :=
  if advanced && !s.shutdownRecv then s.read profile app.onData else some s

/-- How a packet that was inserted is answered. -/
def stored (expectedSeq : SequenceNumber32) (advanced : Bool) (p : Packet) (h : TcpHeader)
    (s : Receiver) : Stored :=
  if advanced && s.rxBuffer.finished && !h.hasFlag TcpHeader.FIN then .complete
  else if s.rxBuffer.availBytes < s.rxBuffer.size ||
      s.rxBuffer.nextRxSeq.gt (expectedSeq.add p.length) then .outOfOrder
  else .inSequence

/-- The second part: the packet is put into the receive buffer, and the application is
told of data in sequence. -/
def store (p : Packet) (h : TcpHeader) (app : Application) (s : Receiver) :
    Option (Stored × Receiver) := do
  let expectedSeq := s.rxBuffer.nextRxSeq
  let (added, rxBuffer) ← s.rxBuffer.add profile p h.sequenceNumber
  let s := { s with rxBuffer, trace.added := (p, h.sequenceNumber) :: s.trace.added }
  if !added then some (.refused, s)
  else do
    let advanced := expectedSeq.lt s.rxBuffer.nextRxSeq
    let s ← s.notifyDataRecv profile advanced app
    return (s.stored expectedSeq advanced p h, s)

/-- An acknowledgement that may be delayed. -/
def delayAck (s : Receiver) : Option Receiver :=
  let s := { s with delAckCount := s.delAckCount + 1 }
  if (s.delay.delayWindow s.segSize).le (.finite s.delAckCount.toNat) then
    s.cancelDelAck.acknowledge profile
  else some { s with delAckRunning := true }

/-- The last part: the answer to the packet. -/
def answer (app : Application) (s : Receiver) : Stored → Option Receiver
  | .refused => s.acknowledge profile
  | .complete => s.doPeerClose profile app
  | .outOfOrder =>
    { s with delay := s.delay.setWindow (s.delay.minimum s.segSize) s.bound }.acknowledge profile
  | .inSequence => s.delayAck profile

/-- `ReceivedData`. -/
def receivedData (now : Int) (p : Packet) (h : TcpHeader) (app : Application) (s : Receiver) :
    Option Receiver := do
  let s ← s.arrive profile now
  let (stored, s) ← s.store profile p h app
  s.answer profile app stored

/-- The delay window after the timer has expired. -/
def backOff (s : Receiver) : Receiver :=
  { s with delay := { s.delay.observed .delAckTimeout with dwnd := s.delay.backedOff s.segSize } }

/-- `DelAckTimeout`. The event that calls it is not running any more. -/
def delAckTimeout (s : Receiver) : Option Receiver :=
  { s.backOff with delAckRunning := false }.acknowledge profile

/-! ## Runs -/

/-- The options of a segment with ACK and without SYN, read by `DoForwardUp`. -/
def doForwardUp (h : TcpHeader) (s : Receiver) : Option Receiver := do
  let r ← forwardAck s.state h { s.options with nextRxSequence := s.rxBuffer.nextRxSeq }
  return { s with options := r.elim id id }

def setFinSequence (seq : SequenceNumber32) (s : Receiver) : Receiver :=
  { s with
    rxBuffer := s.rxBuffer.setFinSequence seq
    trace.fins := seq :: s.trace.fins }

/-- What `SendDataPacket` does to the receiving side: data carries an acknowledgement. -/
def sendDataPacket (s : Receiver) : Option Receiver := do
  let (_, s) ← s.advertisedWindowSize profile true
  return s.acked

/-- The calls that the receiving side is driven by. -/
inductive Call where
  | doForwardUp (h : TcpHeader)
  | receivedData (now : Int) (p : Packet) (h : TcpHeader) (app : Application)
  | setFinSequence (seq : SequenceNumber32)
  | delAckTimeout
  | recv (maxSize : Nat)
  | sendEmptyPacket (flags : Byte)
  | sendDataPacket

/-- One call. A timer that is not running does not expire. -/
def step (s : Receiver) : Call → Option Receiver
  | .doForwardUp h => s.doForwardUp h
  | .receivedData now p h app => s.receivedData profile now p h app
  | .setFinSequence seq => some (s.setFinSequence seq)
  | .delAckTimeout => if s.delAckRunning then s.delAckTimeout profile else some s
  | .recv maxSize => s.recv profile maxSize
  | .sendEmptyPacket flags => s.sendEmptyPacket profile flags
  | .sendDataPacket => s.sendDataPacket profile

/-- A socket that has received nothing yet: the members of the adaptive delay have
their initial values, whatever its attributes and its other members are. -/
structure Fresh (s : Receiver) : Prop where
  baseIat : s.delay.baseIat = .posInf
  iat : s.delay.iat = .posInf
  lastPacketTime : s.delay.lastPacketTime = none
  dwnd : s.delay.dwnd = .finite 3
  ratios : s.delay.ratios = []
  windows : s.delay.windows = []

/-- The clock does not run backwards between two packets. -/
def Timely (s : Receiver) : Call → Prop
  | .receivedData now _ _ _ => ∀ last ∈ s.delay.lastPacketTime, last ≤ now
  | _ => True

instance (s : Receiver) : (c : Call) → Decidable (s.Timely c)
  | .receivedData now _ _ _ =>
    inferInstanceAs (Decidable (∀ last ∈ s.delay.lastPacketTime, last ≤ now))
  | .doForwardUp _ | .setFinSequence _ | .delAckTimeout | .recv _ | .sendEmptyPacket _
  | .sendDataPacket => instDecidableTrue

end Receiver

end Ns3.TcpSocketBase
