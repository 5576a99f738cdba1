import Ns3.Internet.TcpRecoveryOps
import Ns3.Internet.TcpTxBuffer.Basic
import Ns3.Internet.TcpSocketBase.Options

/-!
# The sending side of a TCP socket

`ReceivedAck` and `ReTxTimeout` with everything they call: the congestion state
machine, the entry into a recovery and the way out of it, and the transmission of
data by `DoRetransmit` and `SendPendingData`. The scoreboard is the real transmit
buffer; the congestion control and the recovery algorithm are any pair of them.

What the sender does not decide comes with its events: the members that other
parts of the socket write (`Surroundings`), the rate estimator's count of delivered
bytes, how many segments the pacing timer lets through, and what the application
sends from its callback.
-/

namespace Ns3.TcpSocketBase

/-- The two algorithms of a socket. -/
structure SenderOps (σ ρ : Type) where
  congestionControl : TcpCongestionOps σ
  recoveryOps : TcpRecoveryOps ρ

/-- Members that other parts of the socket write, and the clock. -/
structure Surroundings where
  now : Int := 0
  state : TcpState := .established
  hasEndPoint : Bool := true
  rWnd : BitVec 32 := 65535
  highRxAckMark : SequenceNumber32 := ⟨0⟩
  ecnState : EcnState := .ecnDisabled
  lastRtt : Int := 0
  noDelay : Bool := true
  closeOnEmpty : Bool := false
  shutdownSend : Bool := false
  deriving DecidableEq

/-- Who decided on a transmission. `DoRetransmit` does so on the buffer it finds. -/
inductive Decision where
  | sendPendingData
  | doRetransmit (buffer : TcpTxBuffer) (rWnd : BitVec 32)

/-- One call of `SendDataPacket`: who made it, `Window ()` when it was decided, and the
bytes in flight after it. -/
structure Transmission where
  decision : Decision
  window : BitVec 32
  isRetransmission : Bool
  inFlight : Nat

/-- The state a fast recovery was entered in. -/
structure RecoveryEntry (σ : Type) where
  tcb : TcpSocketState
  congestionControl : σ

/-- The end of a fast recovery: its entry, whether a SYN has set the windows up again
since, and the windows before, between and after the two `ExitRecovery` calls. -/
structure RecoveryExit (σ : Type) where
  entry : RecoveryEntry σ
  reinitialized : Bool
  before : Windows
  between : Windows
  after : Windows

/-- What an observer of the socket has seen. Nothing reads it. -/
structure SenderTrace (σ : Type) where
  transmissions : List Transmission := []
  entry : Option (RecoveryEntry σ) := none
  reinitialized : Bool := false
  exits : List (RecoveryExit σ) := []

/-- The members of `TcpSocketBase` that the sending side writes. `callbacks` are the
packets that the application sends from its next calls of `NotifySend`. -/
structure Sender (σ ρ : Type) where
  tcb : TcpSocketState := {}
  congestionControl : σ
  recoveryOps : ρ
  txBuffer : TcpTxBuffer
  around : Surroundings := {}
  sackEnabled : Bool := true
  limitedTx : Bool := true
  retxThresh : BitVec 32 := 3
  dupAckCount : BitVec 32 := 0
  recover : SequenceNumber32 := ⟨0⟩
  recoverActive : Bool := false
  isFirstPartialAck : Bool := true
  ecnEchoSeq : SequenceNumber32 := ⟨0⟩
  ecnCWRSeq : SequenceNumber32 := ⟨0⟩
  bytesAckedNotProcessed : BitVec 32 := 0
  dataRetrCount : Nat := 6
  dataRetries : Nat := 6
  callbacks : List (List Packet) := []
  trace : SenderTrace σ := {}

namespace Sender

variable {σ ρ : Type} (profile : BuildProfile) (ops : SenderOps σ ρ)

/-! ## The algorithms and the windows -/

/-- A virtual call of `m_congestionControl`. -/
def congestion (call : CongestionCall) (s : Sender σ ρ) : Sender σ ρ :=
  let r := ops.congestionControl.call s.around.now call s.tcb s.congestionControl
  { s with tcb.toWindows := r.1, congestionControl := r.2 }

/-- A virtual call of `m_recoveryOps`. -/
def recovery (call : RecoveryCall) (s : Sender σ ρ) : Sender σ ρ :=
  let r := ops.recoveryOps.call call s.tcb s.recoveryOps
  { s with tcb.toWindows := r.1, recoveryOps := r.2 }

/-- `BytesInFlight`: the result is stored in `m_bytesInFlight`. -/
def bytesInFlight (s : Sender σ ρ) : Option (Sender σ ρ) := do
  let bytes ← s.txBuffer.bytesInFlight profile
  return { s with tcb.bytesInFlight := BitVec.ofNat 32 bytes }

/-- `Window`. -/
def window (s : Sender σ ρ) : BitVec 32 :=
  if s.tcb.cWnd < s.around.rWnd then s.tcb.cWnd else s.around.rWnd

/-- `AvailableWindow`. -/
def availableWindow (s : Sender σ ρ) : Option (BitVec 32 × Sender σ ρ) := do
  let s ← s.bytesInFlight profile
  return (if s.window < s.tcb.bytesInFlight then 0 else s.window - s.tcb.bytesInFlight, s)

def unAckDataCount (s : Sender σ ρ) : BitVec 32 := s.tcb.highTxMark.sub s.txBuffer.headSequence

/-- `m_ssThresh = GetSsThresh (m_tcb, inFlight)`. -/
def setSsThresh (inFlight : BitVec 32) (s : Sender σ ρ) : Option (Sender σ ρ) := do
  let (ssThresh, congestionControl) ←
    ops.congestionControl.getSsThresh profile s.tcb inFlight s.congestionControl
  return { s with tcb.ssThresh := ssThresh, congestionControl }

def setCongState (congState : TcpCongState) (s : Sender σ ρ) : Sender σ ρ :=
  { s with tcb.congState := congState }

/-- The change of state that the congestion control is told about. -/
def changeCongState (congState : TcpCongState) (s : Sender σ ρ) : Sender σ ρ :=
  (s.congestion ops (.congestionStateSet congState)).setCongState congState

/-! ## The application -/

/-- `Send`. The transmission it may schedule is an event of its own. -/
def send (p : Packet) (s : Sender σ ρ) : Option (Sender σ ρ) :=
  if s.around.state = .established ∨ s.around.state = .synSent ∨ s.around.state = .closeWait then
    let (added, txBuffer) := s.txBuffer.add p
    let s := { s with txBuffer }
    if !added || s.around.shutdownSend || s.around.state = .synSent then some s
    else s.bytesInFlight profile
  else some s

/-- `NotifySend`: the application sends what it wants to from the callback. -/
def notifySend (s : Sender σ ρ) : Option (Sender σ ρ) :=
  match s.callbacks with
  | [] => some s
  | packets :: callbacks => packets.foldlM (fun s p => s.send profile p) { s with callbacks }

/-! ## Transmissions -/

/-- The first new segment after an ECN echo says that the window was reduced. -/
def answerEcho (seq : SequenceNumber32) (isRetransmission : Bool) (s : Sender σ ρ) : Sender σ ρ :=
  if s.tcb.ecnState = .ecnEceRcvd && s.ecnEchoSeq.gt s.ecnCWRSeq && !isRetransmission then
    { s with tcb.ecnState := .ecnCwrSent, ecnCWRSeq := seq }
  else s

/-- The last segment of a socket that is to be closed carries a FIN. -/
def closeWhenEmpty (remainingData : Nat) (s : Sender σ ρ) : Sender σ ρ :=
  if s.around.closeOnEmpty && remainingData == 0 then
    if s.around.state = .established then { s with around.state := .finWait1 }
    else if s.around.state = .closeWait then { s with around.state := .lastAck }
    else s
  else s

/-- The tail of `SendDataPacket`: the bytes sent in a recovery, and `m_highTxMark`. -/
def accountSent (seq : SequenceNumber32) (size : Nat) (s : Sender σ ρ) : Sender σ ρ :=
  let s := if s.tcb.congState = .caRecovery ∨ s.tcb.congState = .caCwr then
    s.recovery ops (.updateBytesSent (BitVec.ofNat 32 size)) else s
  { s with tcb.highTxMark :=
      if (seq.add size).lt s.tcb.highTxMark then s.tcb.highTxMark else seq.add size }

/-- `SendDataPacket`. The item must exist: it is dereferenced. -/
def sendDataPacket (decision : Decision) (window : BitVec 32) (seq : SequenceNumber32)
    (maxSize : Nat) (s : Sender σ ρ) : Option (Nat × Sender σ ρ) := do
  let s ← s.bytesInFlight profile
  let (outItem, txBuffer) ← s.txBuffer.copyFromSequence profile s.around.now maxSize seq
  let item ← outItem
  nsAssert profile (item.retrans ||
    (s.around.highRxAckMark.add s.around.rWnd.toNat).ge (seq.add maxSize))
  let remainingData := txBuffer.sizeFromSequence (seq.add item.size)
  let s := { s with txBuffer := txBuffer }
  let s := (s.answerEcho seq item.retrans).closeWhenEmpty remainingData
  let s := s.accountSent ops seq item.size
  let transmission : Transmission := {
    decision, window, isRetransmission := item.retrans
    inFlight := (txBuffer.bytesInFlight .optimized).getD 0 }
  return (item.size, { s with
    trace.transmissions := transmission :: s.trace.transmissions })

/-- The range `DoRetransmit` sends: the one of `NextSeg`, or the head once more. -/
def retransmitRange (s : Sender σ ρ) : SequenceNumber32 × Nat :=
  match s.txBuffer.nextSeg s.around.rWnd.toNat false with
  | some (seq, seqHigh) => (seq, (seqHigh.sub seq).toNat)
  | none => (s.txBuffer.headSequence, s.tcb.segmentSize.toNat)

/-- `DoRetransmit`. -/
def doRetransmit (s : Sender σ ρ) : Option (Sender σ ρ) := do
  let (seq, maxSizeToSend) := s.retransmitRange
  nsAssert profile (s.sackEnabled || seq == s.txBuffer.headSequence)
  let (sz, s) ← { s with tcb.nextTxSequence := seq }.sendDataPacket profile ops
    (.doRetransmit s.txBuffer s.around.rWnd) s.window seq maxSizeToSend
  nsAssert profile (0 < sz)
  return s

/-- The silly window syndrome and Nagle's algorithm: reasons not to send yet. -/
def held (available : BitVec 32) (availableData : Nat) (s : Sender σ ρ) : Bool :=
  (available < s.tcb.segmentSize && available.toNat < availableData) ||
    (!s.around.noDelay && 0 < s.unAckDataCount && availableData < s.tcb.segmentSize.toNat)

/-- `m_nextTxSequence` and the event for a transmission with nothing in flight. -/
def startTransmission (next : SequenceNumber32) (s : Sender σ ρ) : Sender σ ρ :=
  let s := { s with tcb.nextTxSequence := next }
  if s.tcb.bytesInFlight = 0 then s.congestion ops (.cwndEvent .txStart) else s

/-- The part of a turn of `SendPendingData` that transmits. -/
def sendSegment (available : BitVec 32) (next nextHigh : SequenceNumber32) (s : Sender σ ρ) :
    Option (Sender σ ρ) := do
  let size := min (min available.toNat s.tcb.segmentSize.toNat) (nextHigh.sub next).toNat
  let (sz, s) ← (s.startTransmission ops next).sendDataPacket profile ops .sendPendingData
    s.window next size
  return { s with tcb.nextTxSequence := s.tcb.nextTxSequence.add sz }

/-- `NotifySend` when there is less data than the window has room for. -/
def askForData (wanted : Bool) (s : Sender σ ρ) : Option (Sender σ ρ) :=
  if wanted then s.notifySend profile else some s

/-- A turn of `SendPendingData`, and whether it sent a segment. -/
def sendTurn (available : BitVec 32) (s : Sender σ ρ) : Option (Bool × Sender σ ρ) :=
  if available = 0 ∨ (s.tcb.congState = .caOpen ∧ s.around.state = .finWait1) then
    some (false, s)
  else
    match s.txBuffer.nextSeg s.around.rWnd.toNat
      (s.sackEnabled && s.tcb.congState == .caRecovery) with
    | none => some (false, s)
    | some (next, nextHigh) => do
        let availableData := s.txBuffer.sizeFromSequence next
        let s ← s.askForData profile (availableData < available.toNat)
        if s.held available availableData then some (false, s)
        else (s.sendSegment profile ops available next nextHigh).map (true, ·)

/-- The loop of `SendPendingData`, with the number of segments sent. After `turns`
segments the pacing timer is running, which ends it. -/
def sendLoop : Nat → Sender σ ρ → Option (Nat × Sender σ ρ)
  | 0, s => do
      let (_, s) ← s.availableWindow profile
      return (0, s)
  | turns + 1, s => do
      let (available, s) ← s.availableWindow profile
      let (sent, s) ← s.sendTurn profile ops available
      if sent then (sendLoop turns s).map fun r => (r.1 + 1, r.2) else some (0, s)

/-- `SendPendingData`. -/
def sendPendingData (turns : Nat) (s : Sender σ ρ) : Option (Sender σ ρ) :=
  if s.txBuffer.size = 0 ∨ !s.around.hasEndPoint then some s
  else do
    let (nPacketsSent, s) ← s.sendLoop profile ops turns
    nsAssert profile (nPacketsSent == 0 || s.sackEnabled || s.limitedTx ||
      s.tcb.congState != .caDisorder)
    return s

/-! ## Entering a recovery -/

/-- The two `EnterRecovery` calls. -/
def invokeRecovery (currentDelivered : BitVec 32) (s : Sender σ ρ) : Sender σ ρ :=
  if ops.congestionControl.hasCongControl then s
  else (s.congestion ops .enterRecovery).recovery ops
    (.enterRecovery s.dupAckCount s.unAckDataCount currentDelivered)

/-- `EnterCwr`. -/
def enterCwr (currentDelivered : BitVec 32) (s : Sender σ ρ) : Option (Sender σ ρ) := do
  let s ← s.bytesInFlight profile
  let s ← s.setSsThresh profile ops s.tcb.bytesInFlight
  let s := { s with tcb.cWndInfl := s.tcb.ssThresh }
  nsAssert profile (s.tcb.congState != .caCwr)
  let s := { s.setCongState .caCwr with recover := s.tcb.highTxMark }
  return s.invokeRecovery ops currentDelivered

/-- The head counts as lost when a recovery starts. -/
def markHead (s : Sender σ ρ) : Option (Sender σ ρ) :=
  if !s.sackEnabled then do
    let txBuffer ← s.txBuffer.addRenoSack profile
    return { s with txBuffer := txBuffer.markHeadAsLost }
  else if !s.txBuffer.isLost s.txBuffer.headSequence then
    some { s with txBuffer := s.txBuffer.markHeadAsLost }
  else some s

/-- `EnterRecovery` up to `DoRetransmit`. -/
def beginRecovery (currentDelivered : BitVec 32) (s : Sender σ ρ) : Option (Sender σ ρ) := do
  nsAssert profile (s.tcb.congState != .caRecovery)
  let entry : RecoveryEntry σ := { tcb := s.tcb, congestionControl := s.congestionControl }
  let s ← s.markHead profile
  let s := { s with
    recover := s.tcb.highTxMark
    recoverActive := true
    trace.entry := entry
    trace.reinitialized := false }
  let s := s.changeCongState ops .caRecovery
  let s ← s.bytesInFlight profile
  let s ← s.setSsThresh profile ops
    (if s.sackEnabled then s.tcb.bytesInFlight else s.tcb.bytesInFlight + s.tcb.segmentSize)
  return s.invokeRecovery ops currentDelivered

/-- `EnterRecovery`. -/
def enterRecovery (currentDelivered : BitVec 32) (s : Sender σ ρ) : Option (Sender σ ρ) := do
  let s ← s.beginRecovery profile ops currentDelivered
  s.doRetransmit profile ops

/-! ## Duplicate ACKs -/

/-- `m_txBuffer->AddRenoSack ()`, if a duplicate ACK has to stand for a SACK block. -/
def addRenoSack (wanted : Bool) (s : Sender σ ρ) : Option (Sender σ ρ) :=
  if wanted then (s.txBuffer.addRenoSack profile).map fun txBuffer => { s with txBuffer }
  else some s

def dupAckInRecovery (currentDelivered : BitVec 32) (s : Sender σ ρ) : Option (Sender σ ρ) := do
  let s ← s.addRenoSack profile !s.sackEnabled
  return if ops.congestionControl.hasCongControl then s
    else s.recovery ops (.doRecovery currentDelivered)

/-- The second assertion of `DupAck`, in `CA_DISORDER`. -/
def disorderAssertion (s : Sender σ ρ) : Bool := s.dupAckCount ≤ s.retxThresh || s.recoverActive

/-- The two conditions under which `CA_DISORDER` ends in a recovery. -/
def recoversFromDisorder (s : Sender σ ρ) : Bool :=
  (s.dupAckCount = s.retxThresh &&
      (s.around.highRxAckMark.ge s.recover || !s.recoverActive)) ||
    s.txBuffer.isLost (s.around.highRxAckMark.add s.tcb.segmentSize.toNat)

def dupAckInDisorder (currentDelivered : BitVec 32) (s : Sender σ ρ) : Option (Sender σ ρ) := do
  nsAssert profile s.disorderAssertion
  if s.recoversFromDisorder then do
    let s ← s.enterRecovery profile ops currentDelivered
    nsAssert profile (s.tcb.congState == .caRecovery)
    return s
  else s.addRenoSack profile (!s.sackEnabled && s.limitedTx)

/-- The duplicates that are counted: not those in a recovery. -/
def countDupAck (s : Sender σ ρ) : Sender σ ρ :=
  if s.tcb.congState = .caRecovery then s else { s with dupAckCount := s.dupAckCount + 1 }

/-- The first assertion of `DupAck`, from `CA_OPEN` to `CA_DISORDER`. -/
def openAssertion (s : Sender σ ρ) : Bool := s.tcb.congState != .caOpen || s.dupAckCount == 1

def leaveOpen (s : Sender σ ρ) : Sender σ ρ :=
  if s.tcb.congState = .caOpen then s.changeCongState ops .caDisorder else s

/-- `DupAck`. -/
def dupAck (currentDelivered : BitVec 32) (s : Sender σ ρ) : Option (Sender σ ρ) :=
  if s.tcb.congState = .caLoss then some s
  else do
    let s := s.countDupAck
    nsAssert profile s.openAssertion
    let s := s.leaveOpen ops
    if s.tcb.congState = .caRecovery then s.dupAckInRecovery profile ops currentDelivered
    else if s.tcb.congState = .caDisorder then s.dupAckInDisorder profile ops currentDelivered
    else some s

/-! ## Acknowledged data -/

/-- `NewAck`, without the retransmission timer. -/
def newAck (ack : SequenceNumber32) (s : Sender σ ρ) : Option (Sender σ ρ) := do
  let s := { s with dataRetrCount := s.dataRetries }
  let s ← s.askForData profile (0 < s.txBuffer.available)
  let nextTxSequence := if ack.gt s.tcb.nextTxSequence then ack else s.tcb.nextTxSequence
  return { s with tcb.nextTxSequence := nextTxSequence }

/-- An ACK as `ProcessAck` counts it: the number, the bytes and segments it is worth,
and whether it is a duplicate as well. -/
structure Acked where
  ack : SequenceNumber32
  oldHeadSequence : SequenceNumber32
  currentDelivered : BitVec 32
  oldDupAckCount : BitVec 32
  isDupack : Bool
  bytesAcked : BitVec 32
  segsAcked : BitVec 32

/-- The retransmission on a partial ACK, unless the segment was sent again before. -/
def retransmitPartial (a : Acked) (s : Sender σ ρ) : Option (Sender σ ρ) :=
  if s.txBuffer.isRetransmittedDataAcked (a.ack.add s.tcb.segmentSize.toNat) then some s
  else do
    let s ← s.doRetransmit profile ops
    let cWndInfl := if a.bytesAcked < s.tcb.cWndInfl then s.tcb.cWndInfl - a.bytesAcked else 0
    return { s with tcb.cWndInfl := cWndInfl }

/-- `DoRecovery`, if the ACK is worth a segment. -/
def recoverAcked (a : Acked) (s : Sender σ ρ) : Sender σ ρ :=
  if !ops.congestionControl.hasCongControl && decide (1 ≤ a.segsAcked) then
    s.recovery ops (.doRecovery a.currentDelivered)
  else s

/-- `ProcessAck` on an ACK below the recovery point, in `CA_RECOVERY`. -/
def partialAck (a : Acked) (s : Sender σ ρ) : Option (Sender σ ρ) := do
  let s := if s.sackEnabled then s else { s with txBuffer := s.txBuffer.markHeadAsLost }
  let s ← (s.recoverAcked ops a).retransmitPartial profile ops a
  let s ← (s.congestion ops (.pktsAcked 1 s.tcb.lastRtt)).newAck profile a.ack
  return { s with isFirstPartialAck := false }

/-- `ProcessAck` on an ACK below the recovery point, in `CA_LOSS`. -/
def lossAck (a : Acked) (s : Sender σ ρ) : Option (Sender σ ρ) := do
  let s := s.congestion ops (.pktsAcked a.segsAcked s.tcb.lastRtt)
  let s := s.congestion ops (.increaseWindow a.segsAcked)
  nsAssert profile (s.sackEnabled || s.txBuffer.sackedOut == 0)
  s.newAck profile a.ack

/-- `ProcessAck` in `CA_CWR`. -/
def cwrAck (a : Acked) (s : Sender σ ρ) : Option (Sender σ ρ) :=
  ((s.congestion ops (.pktsAcked a.segsAcked s.tcb.lastRtt)).recoverAcked ops a).newAck
    profile a.ack

/-- The way out of `CA_DISORDER`: open on a new ACK that is not a duplicate too. -/
def leaveDisorder (a : Acked) (s : Sender σ ρ) : Sender σ ρ :=
  let s := if a.oldDupAckCount ≤ a.segsAcked then
    s.congestion ops (.pktsAcked (a.segsAcked - a.oldDupAckCount) s.tcb.lastRtt) else s
  if a.isDupack then s else s.changeCongState ops .caOpen

/-- The way out of `CA_RECOVERY`, with the segments that the ACK is worth. -/
def leaveRecovery (segsAcked : BitVec 32) (s : Sender σ ρ) : Sender σ ρ :=
  let s := { s with isFirstPartialAck := true }
  let s := s.congestion ops (.pktsAcked segsAcked s.tcb.lastRtt)
  let s := s.congestion ops (.cwndEvent .completeCwr)
  { s.changeCongState ops .caOpen with dupAckCount := 0 }

/-- The way out of `CA_LOSS`. -/
def leaveLoss (segsAcked : BitVec 32) (s : Sender σ ρ) : Sender σ ρ :=
  let s := { s with isFirstPartialAck := true }
  (s.congestion ops (.pktsAcked segsAcked s.tcb.lastRtt)).changeCongState ops .caOpen

/-- The two `ExitRecovery` calls. -/
def exitRecovery (s : Sender σ ρ) : Sender σ ρ :=
  let before := s.tcb.toWindows
  let s := s.congestion ops .exitRecovery
  let between := s.tcb.toWindows
  let s := s.recovery ops .exitRecovery
  { s with trace.exits := match s.trace.entry with
      | some entry => { entry, reinitialized := s.trace.reinitialized, before, between,
                        after := s.tcb.toWindows } :: s.trace.exits
      | none => s.trace.exits }

/-- `m_recoverActive = false` at or above the recovery point. -/
def deactivateRecover (ack : SequenceNumber32) (s : Sender σ ρ) : Sender σ ρ :=
  { s with recoverActive := s.recoverActive && !ack.ge s.recover }

/-- The end of `ProcessAck` in `CA_OPEN`: the window grows. -/
def growWindow (a : Acked) (segsAcked : BitVec 32) (s : Sender σ ρ) : Option (Sender σ ρ) :=
  if s.tcb.congState = .caOpen then
    let s := s.congestion ops (.increaseWindow segsAcked)
    { s with tcb.cWndInfl := s.tcb.cWnd }.newAck profile a.ack
  else some s

/-- `ProcessAck` on any other ACK of new data, by the state it finds. -/
def fullAck (a : Acked) (s : Sender σ ρ) : Option (Sender σ ρ) :=
  match s.tcb.congState with
  | .caRecovery => do
      let segsAcked := (a.ack.sub a.oldHeadSequence) / s.tcb.segmentSize
      let s := (s.leaveRecovery ops segsAcked).deactivateRecover a.ack
      let s ← s.newAck profile a.ack
      (s.exitRecovery ops).growWindow profile ops a segsAcked
  | .caLoss =>
    let segsAcked := (a.ack.sub s.recover) / s.tcb.segmentSize
    ((s.leaveLoss ops segsAcked).deactivateRecover a.ack).growWindow profile ops a segsAcked
  | .caDisorder =>
    ((s.leaveDisorder ops a).deactivateRecover a.ack).growWindow profile ops a a.segsAcked
  | _ =>
    let s := s.congestion ops (.pktsAcked a.segsAcked s.tcb.lastRtt)
    (s.deactivateRecover a.ack).growWindow profile ops a a.segsAcked

/-- The bytes of incomplete segments are carried over to the next ACK. -/
def countAcked (ack oldHeadSequence : SequenceNumber32)
    (currentDelivered oldDupAckCount : BitVec 32)
    (isDupack : Bool) (s : Sender σ ρ) : Acked × Sender σ ρ :=
  let bytes := ack.sub oldHeadSequence
  let rest := s.bytesAckedNotProcessed + bytes % s.tcb.segmentSize
  let another := s.tcb.segmentSize ≤ rest
  ({ ack, oldHeadSequence, currentDelivered, oldDupAckCount, isDupack
     bytesAcked := bytes - bytes % s.tcb.segmentSize + if another then s.tcb.segmentSize else 0
     segsAcked := bytes / s.tcb.segmentSize + if another then 1 else 0 },
    { s with
      bytesAckedNotProcessed := if another then rest - s.tcb.segmentSize else rest
      dupAckCount := if isDupack then s.dupAckCount else 0 })

/-- `ProcessAck` on an ACK of new data. -/
def ackNewData (a : Acked) (s : Sender σ ρ) : Option (Sender σ ρ) :=
  if a.ack.lt s.recover ∧ s.tcb.congState = .caRecovery then s.partialAck profile ops a
  else if a.ack.lt s.recover ∧ s.tcb.congState = .caLoss then s.lossAck profile ops a
  else if s.tcb.congState = .caCwr then s.cwrAck profile ops a
  else s.fullAck profile ops a

/-- The duplicate ACKs of RFC 6675 and, without SACK, of RFC 5681. -/
def isDupack (ack : SequenceNumber32) (scoreboardUpdated : Bool)
    (oldHeadSequence : SequenceNumber32) (s : Sender σ ρ) : Bool :=
  if s.sackEnabled then scoreboardUpdated
  else ack == oldHeadSequence && ack.lt s.tcb.highTxMark

/-- `ProcessAck` after `DupAck`. -/
def processAcked (ack oldHeadSequence : SequenceNumber32)
    (currentDelivered oldDupAckCount : BitVec 32)
    (isDupack : Bool) (s : Sender σ ρ) : Option (Sender σ ρ) :=
  if ack = oldHeadSequence then
    if ack = s.tcb.highTxMark then some s
    else if ack.gt s.tcb.highTxMark then some { s with tcb.nextTxSequence := ack }
    else some (s.congestion ops (.pktsAcked 1 s.tcb.lastRtt))
  else if ack.gt oldHeadSequence then
    let (a, s) := s.countAcked ack oldHeadSequence currentDelivered oldDupAckCount isDupack
    s.ackNewData profile ops a
  else some s

/-- `ProcessAck`, without the pacing rate. -/
def processAck (ack : SequenceNumber32) (scoreboardUpdated : Bool) (currentDelivered : BitVec 32)
    (oldHeadSequence : SequenceNumber32) (s : Sender σ ρ) : Option (Sender σ ρ) := do
  let dup := s.isDupack ack scoreboardUpdated oldHeadSequence
  let oldDupAckCount := s.dupAckCount
  let s := { s with tcb.lastAckedSeq := ack }
  let s ← if dup then s.dupAck profile ops currentDelivered else some s
  s.processAcked profile ops ack oldHeadSequence currentDelivered oldDupAckCount dup

/-! ## ReceivedAck -/

/-- A segment with ACK: its header, what the rate estimator counts as delivered, what
`ReceivedData` leaves behind when the segment has data, and the pacing of the answer. -/
structure Ack where
  header : TcpHeader
  currentDelivered : BitVec 32
  receivedData : Option Surroundings := none
  turns : Nat

def surround (around : Surroundings) (s : Sender σ ρ) : Sender σ ρ :=
  { s with around, tcb.ecnState := around.ecnState, tcb.lastRtt := around.lastRtt }

def receivedData (a : Ack) (s : Sender σ ρ) : Sender σ ρ :=
  match a.receivedData with
  | some around => s.surround around
  | none => s

/-- `ReadOptions`: the scoreboard is updated from SACK options. -/
def readOptions : List TcpOption → Nat → Sender σ ρ → Option (Nat × Sender σ ρ)
  | [], bytesSacked, s => some (bytesSacked, s)
  | .sack list :: rest, _, s => do
      let (bytesSacked, txBuffer) ← s.txBuffer.update profile list
      readOptions rest bytesSacked { s with txBuffer := txBuffer }
  | _ :: rest, bytesSacked, s => readOptions rest bytesSacked s

/-- Whether the ACK covers a segment that was sent again in this recovery. -/
def acksRetransmission (ack : SequenceNumber32) (s : Sender σ ρ) : Bool :=
  ack.gt s.txBuffer.headSequence && ack.lt s.recover && s.tcb.congState == .caRecovery &&
    (List.range ((ack.sub s.txBuffer.headSequence) / s.tcb.segmentSize).toNat).any fun i =>
      s.txBuffer.isRetransmittedDataAcked (ack.subNat (i * s.tcb.segmentSize.toNat))

/-- `DiscardUpTo`, with what is noted about the ACK on the way. -/
def discardAcked (ack : SequenceNumber32) (currentDelivered : BitVec 32) (s : Sender σ ρ) :
    Option (Sender σ ρ) := do
  let s := { s with tcb.isRetransDataAcked := s.tcb.isRetransDataAcked || s.acksRetransmission ack }
  let txBuffer ← s.txBuffer.discardUpTo profile s.around.now ack
  return { s with txBuffer := txBuffer, tcb.lastAckedSackedBytes := currentDelivered }

/-- An ACK above the recovery point ends `CA_CWR`. -/
def leavesCwr (ack : SequenceNumber32) (s : Sender σ ρ) : Bool :=
  s.tcb.congState = .caCwr && ack.gt s.recover

/-- `m_cWnd = m_ssThresh`. -/
def deflate (s : Sender σ ρ) : Sender σ ρ := { s with tcb.cWnd := s.tcb.ssThresh }

/-- The end of `CA_CWR`, with the recovery that goes with it. -/
def leaveCwr (ack : SequenceNumber32) (s : Sender σ ρ) : Sender σ ρ :=
  if !s.leavesCwr ack then s
  else if ops.congestionControl.hasCongControl then s.setCongState .caOpen
  else ((s.setCongState .caOpen).deflate.recovery ops .exitRecovery).congestion ops
    (.cwndEvent .completeCwr)

/-- Whether the ACK brings an ECN echo of its own: on new data, and once per window. -/
def echoes (h : TcpHeader) (oldHeadSequence : SequenceNumber32) (s : Sender σ ρ) : Bool :=
  h.ackNumber.gt oldHeadSequence && s.tcb.ecnState != .ecnDisabled && h.hasFlag TcpHeader.ECE

/-- The reaction to an ECN echo, or to its end. -/
def receiveEcho (h : TcpHeader) (oldHeadSequence : SequenceNumber32) (currentDelivered : BitVec 32)
    (s : Sender σ ρ) : Option (Sender σ ρ) :=
  if s.echoes h oldHeadSequence then
    if s.ecnEchoSeq.lt h.ackNumber then
      let s := { s with ecnEchoSeq := h.ackNumber, tcb.ecnState := .ecnEceRcvd }
      if s.tcb.congState = .caCwr then some s else s.enterCwr profile ops currentDelivered
    else some s
  else if s.tcb.ecnState = .ecnEceRcvd && !h.hasFlag TcpHeader.ECE then
    some { s with tcb.ecnState := .ecnIdle }
  else some s

/-- The call of `ProcessAck`: the state it is made in, and its arguments that
`ReceivedAck` computes. -/
structure ProcessAckCall (σ ρ : Type) where
  sender : Sender σ ρ
  scoreboardUpdated : Bool
  oldHeadSequence : SequenceNumber32

/-- `ReceivedAck` up to `ProcessAck`. A stale ACK ends it before. -/
def untilProcessAck (a : Ack) (s : Sender σ ρ) :
    Option (ProcessAckCall σ ρ ⊕ Sender σ ρ) := do
  nsAssert profile (a.header.hasFlag TcpHeader.ACK)
  nsAssert profile (0 < s.tcb.segmentSize)
  let (bytesSacked, s) ← s.readOptions profile a.header.options 0
  let oldHeadSequence := s.txBuffer.headSequence
  if a.header.ackNumber.lt oldHeadSequence then some (.inr (s.receivedData a))
  else do
    let s ← s.discardAcked profile a.header.ackNumber a.currentDelivered
    let s ← (s.leaveCwr ops a.header.ackNumber).receiveEcho profile ops a.header
      oldHeadSequence a.currentDelivered
    let s ← s.bytesInFlight profile
    return .inl { sender := s, scoreboardUpdated := 0 < bytesSacked, oldHeadSequence }

/-- The difference between two values of `m_txBuffer->GetLost ()`. -/
def lostSince (previousLost currentLost : Nat) : BitVec 32 :=
  BitVec.ofNat 32 (if previousLost < currentLost then currentLost - previousLost
    else previousLost - currentLost)

/-- `ReceivedAck` after `ProcessAck`, of the two values read at its start. -/
def afterProcessAck (a : Ack) (previousLost : Nat) (priorInFlight : BitVec 32) (s : Sender σ ρ) :
    Option (Sender σ ρ) :=
  let s := { s with tcb.isRetransDataAcked := false }
  let s := if ops.congestionControl.hasCongControl then
    s.congestion ops (.congControl a.currentDelivered
      (lostSince previousLost s.txBuffer.getLost) priorInFlight) else s
  (s.receivedData a).sendPendingData profile ops a.turns

/-- `ReceivedAck`. -/
def receivedAck (a : Ack) (s : Sender σ ρ) : Option (Sender σ ρ) := do
  match ← s.untilProcessAck profile ops a with
  | .inr s => return s
  | .inl call =>
    let t ← call.sender.processAck profile ops a.header.ackNumber call.scoreboardUpdated
      a.currentDelivered call.oldHeadSequence
    t.afterProcessAck profile ops a s.txBuffer.getLost s.tcb.bytesInFlight

/-! ## ReTxTimeout -/

/-- The reasons for which `ReTxTimeout` does nothing here: no connection, a SYN or a FIN
that is sent by `SendEmptyPacket`, or no data. -/
def ignoresTimeout (s : Sender σ ρ) : Bool :=
  s.around.state = .closed || s.around.state = .timeWait || s.around.state = .synSent ||
    s.txBuffer.size = 0

/-- Everything in flight is lost. -/
def loseFlight (s : Sender σ ρ) : Option (Sender σ ρ) := do
  let s := { s with dataRetrCount := s.dataRetrCount - 1, dupAckCount := 0 }
  let b := if s.sackEnabled then s.txBuffer else s.txBuffer.resetRenoSack
  let txBuffer ← b.setSentListLost profile !s.sackEnabled
  return { s with txBuffer := txBuffer, recover := s.tcb.highTxMark, recoverActive := true }

/-- The threshold, unless the head was sent again by a timeout before. -/
def timeoutSsThresh (inFlightBeforeRto : BitVec 32) (s : Sender σ ρ) : Option (Sender σ ρ) :=
  if s.tcb.congState ≠ .caLoss then s.setSsThresh profile ops inFlightBeforeRto
  else do
    let retransmitted ← s.txBuffer.isHeadRetransmitted
    if retransmitted then some s else s.setSsThresh profile ops inFlightBeforeRto

/-- `CA_LOSS`, with a window of one segment. -/
def enterLoss (s : Sender σ ρ) : Sender σ ρ :=
  let s := s.congestion ops (.cwndEvent .loss)
  let s := s.changeCongState ops .caLoss
  { s with tcb.cWnd := s.tcb.segmentSize, tcb.cWndInfl := s.tcb.segmentSize }

/-- An assertion about `BytesInFlight ()`, which is evaluated only where assertions are. -/
def assertInFlight (bound : BitVec 32) (s : Sender σ ρ) : Option (Sender σ ρ) :=
  if profile = .debug then do
    let s ← s.bytesInFlight profile
    nsAssert profile (s.tcb.bytesInFlight ≤ bound)
    return s
  else some s

/-- `ReTxTimeout`. -/
def reTxTimeout (turns : Nat) (s : Sender σ ρ) : Option (Sender σ ρ) :=
  if s.ignoresTimeout then some s
  else if s.dataRetrCount = 0 then some { s with around.hasEndPoint := false }
  else do
    let s ← s.bytesInFlight profile
    let inFlightBeforeRto := s.tcb.bytesInFlight
    let s ← s.loseFlight profile
    let s ← s.timeoutSsThresh profile ops inFlightBeforeRto
    let s ← (s.enterLoss ops).assertInFlight profile 0
    let s ← s.sendPendingData profile ops turns
    s.assertInFlight profile s.tcb.segmentSize

/-! ## Runs -/

/-- `DoForwardUp` on a segment with SYN, which sets the windows up anew in any state. -/
def receivedSyn (h : TcpHeader) (s : Sender σ ρ) : Sender σ ρ :=
  let permitted := h.hasOption TcpOption.SACKPERMITTED && s.sackEnabled
  { s with
    around.rWnd := h.windowSize.setWidth 32
    around.highRxAckMark :=
      if h.hasFlag TcpHeader.ACK then h.ackNumber else s.around.highRxAckMark
    sackEnabled := permitted
    txBuffer.sackEnabled := permitted && s.txBuffer.sackEnabled
    tcb.cWnd := s.tcb.initialCWnd * s.tcb.segmentSize
    tcb.cWndInfl := s.tcb.initialCWnd * s.tcb.segmentSize
    tcb.ssThresh := s.tcb.initialSsThresh
    trace.reinitialized := true }

inductive Event where
  | receivedAck (a : Ack)
  | reTxTimeout (turns : Nat)
  | send (p : Packet)
  | sendPendingData (turns : Nat)
  | receivedSyn (h : TcpHeader)
  | surround (around : Surroundings)

/-- One event. -/
def step (s : Sender σ ρ) : Event → Option (Sender σ ρ)
  | .receivedAck a => s.receivedAck profile ops a
  | .reTxTimeout turns => s.reTxTimeout profile ops turns
  | .send p => s.send profile p
  | .sendPendingData turns => s.sendPendingData profile ops turns
  | .receivedSyn h => some (s.receivedSyn h)
  | .surround around => some (s.surround around)

/-- A segment with ACK, without data. -/
def pureAck (ackNumber : Nat) (flags : Byte) (options : List TcpOption) : Ack where
  header := { ackNumber := .ofNat ackNumber, flags, options }
  currentDelivered := 2
  turns := 20

/-- `UpdateWindowSize` notes the ACK number before `ReceivedAck` is called. -/
def arrives (around : Surroundings) (a : Ack) : List Event :=
  [.surround { around with highRxAckMark := a.header.ackNumber }, .receivedAck a]

end Sender

end Ns3.TcpSocketBase
