import Ns3.Core.Assert
import Ns3.Internet.TcpHeader.Basic

/-!
# Options of a TCP socket

The members of `TcpSocketBase` that the options of a segment are read into, and
the part of `DoForwardUp` that reads them before the segment reaches the state
machine. A segment with SYN sets the options up; any other segment with ACK only
brings new values.

`none` is a call that ends the program: a failed assertion, or an option that is
not of the class its kind announces.
-/

namespace Ns3.TcpSocketBase

/-- `TcpSocket::TcpStates_t`, in the order of the enumeration. -/
inductive TcpState where
  | closed
  | listen
  | synSent
  | synRcvd
  | established
  | closeWait
  | lastAck
  | finWait1
  | finWait2
  | closing
  | timeWait
  deriving DecidableEq

/-- The members that the options of a segment decide, with those read on the way. -/
structure OptionState where
  rWnd : BitVec 32 := 0
  highRxMark : SequenceNumber32 := ⟨0⟩
  highRxAckMark : SequenceNumber32 := ⟨0⟩
  highTxAck : SequenceNumber32 := ⟨0⟩
  nextRxSequence : SequenceNumber32 := ⟨0⟩
  maxWinSize : BitVec 16 := 65535
  /-- `m_rxBuffer->MaxBufferSize ()`. -/
  maxBufferSize : BitVec 32 := 32768
  winScalingEnabled : Bool := true
  rcvWindShift : Byte := 0
  sndWindShift : Byte := 0
  sackEnabled : Bool := true
  /-- `m_txBuffer->IsSackEnabled ()`. -/
  txBufferSackEnabled : Bool := true
  timestampEnabled : Bool := true
  timestampToEcho : BitVec 32 := 0
  rcvTimestampValue : BitVec 32 := 0
  rcvTimestampEchoReply : BitVec 32 := 0
  congestionWindowEnabled : Bool := false
  rcvCwndValue : BitVec 32 := 0
  cwndDiff : BitVec 32 := 0
  initialCWnd : BitVec 32 := 10
  segmentSize : BitVec 32 := 536
  initialSsThresh : BitVec 32 := BitVec.allOnes 32
  cWnd : BitVec 32 := 0
  cWndInfl : BitVec 32 := 0
  ssThresh : BitVec 32 := 0
  deriving DecidableEq

/-- `TcpOptionWinScale::GetScale`. -/
def getScale (profile : BuildProfile) (scale : Byte) : Option Byte := do
  nsAssert profile (scale ≤ 14)
  return scale

/-- The shift taken over from a received scale: at most 14. -/
def cappedScale (scale : Byte) : Byte := if 14 < scale then 14 else scale

def processOptionWScale (profile : BuildProfile) (option : Option TcpOption) (s : OptionState) :
    Option OptionState :=
  match option with
  | some (.winScale scale) => do
      let shift ← getScale profile scale
      return { s with sndWindShift := cappedScale shift }
  | _ => none

def processOptionSackPermitted (profile : BuildProfile) (s : OptionState) : Option OptionState := do
  nsAssert profile s.sackEnabled
  return s

/-- An older timestamp than the one stored is not saved. -/
def processOptionTimestamp (option : Option TcpOption) (seq : SequenceNumber32)
    (s : OptionState) : Option OptionState :=
  match option with
  | some (.ts timestamp echo) =>
    if timestamp < s.rcvTimestampValue then some s
    else some { s with
      rcvTimestampValue := timestamp
      rcvTimestampEchoReply := echo
      timestampToEcho :=
        if seq = s.nextRxSequence ∧ seq.le s.highTxAck then timestamp else s.timestampToEcho }
  | _ => none

def processOptionCongestionWindow (option : Option TcpOption) (s : OptionState) :
    Option OptionState :=
  match option with
  | some (.cwnd cwnd) => some { s with cwndDiff := cwnd - s.rcvCwndValue, rcvCwndValue := cwnd }
  | _ => none

/-! ## The four options of a SYN -/

def synWinScale (profile : BuildProfile) (h : TcpHeader) (s : OptionState) : Option OptionState :=
  if h.hasOption TcpOption.WINSCALE && s.winScalingEnabled then
    processOptionWScale profile (h.getOption TcpOption.WINSCALE) s
  else some { s with winScalingEnabled := false }

def synSackPermitted (profile : BuildProfile) (h : TcpHeader) (s : OptionState) :
    Option OptionState :=
  if h.hasOption TcpOption.SACKPERMITTED && s.sackEnabled then
    processOptionSackPermitted profile s
  else some { s with sackEnabled := false, txBufferSackEnabled := false }

def synTimestamp (h : TcpHeader) (s : OptionState) : Option OptionState :=
  if h.hasOption TcpOption.TS && s.timestampEnabled then
    processOptionTimestamp (h.getOption TcpOption.TS) h.sequenceNumber s
  else some { s with timestampEnabled := false }

/-- The same on a SYN and on an ACK. -/
def segmentCongestionWindow (h : TcpHeader) (s : OptionState) : Option OptionState :=
  if h.hasOption TcpOption.CWND && s.congestionWindowEnabled then
    processOptionCongestionWindow (h.getOption TcpOption.CWND) s
  else some { s with congestionWindowEnabled := false }

/-- `m_rWnd = tcpHeader.GetWindowSize ()`: the window of a SYN is not scaled. -/
def synWindow (h : TcpHeader) (s : OptionState) : OptionState :=
  { s with rWnd := h.windowSize.setWidth 32 }

/-- The initial congestion window and threshold, set at each SYN. -/
def initializeWindows (h : TcpHeader) (s : OptionState) : OptionState :=
  { s with
    cWnd := s.initialCWnd * s.segmentSize
    cWndInfl := s.initialCWnd * s.segmentSize
    ssThresh := s.initialSsThresh
    highRxAckMark := if h.hasFlag TcpHeader.ACK then h.ackNumber else s.highRxAckMark }

/-- `DoForwardUp` on a segment with SYN. -/
def forwardSyn (profile : BuildProfile) (h : TcpHeader) (s : OptionState) :
    Option OptionState := do
  let s ← synWinScale profile h (synWindow h s)
  let s ← synSackPermitted profile h s
  let s ← synTimestamp h s
  let s ← segmentCongestionWindow h s
  return initializeWindows h s

/-- `UpdateWindowSize`, after the state the socket is in. -/
def updateWindowSize (state : TcpState) (h : TcpHeader) (s : OptionState) : OptionState :=
  let receivedWindow := h.windowSize.setWidth 32 <<< s.sndWindShift.toNat
  if state.ctorIdx < TcpState.established.ctorIdx then { s with rWnd := receivedWindow }
  else
    let grown := h.ackNumber = s.highRxAckMark ∧ s.rWnd < receivedWindow
    let acks := h.ackNumber.gt s.highRxAckMark
    let advances := h.sequenceNumber.gt s.highRxMark
    { s with
      highRxAckMark := if acks then h.ackNumber else s.highRxAckMark
      highRxMark := if advances then h.sequenceNumber else s.highRxMark
      rWnd := if grown ∨ acks ∨ advances then receivedWindow else s.rWnd }

/-- The timestamp of a segment that carries one. -/
def ackTimestamp (h : TcpHeader) (s : OptionState) : Option OptionState :=
  if s.timestampEnabled then
    processOptionTimestamp (h.getOption TcpOption.TS) h.sequenceNumber s
  else some s

/-- `DoForwardUp` on a segment with ACK and without SYN. `inr` is a segment that is
dropped because it has no timestamp. -/
def forwardAck (state : TcpState) (h : TcpHeader) (s : OptionState) :
    Option (OptionState ⊕ OptionState) :=
  if s.timestampEnabled && !h.hasOption TcpOption.TS then some (.inr s)
  else do
    let s ← ackTimestamp h s
    let s ← segmentCongestionWindow h s
    return .inl (updateWindowSize state h s)

/-- `DoForwardUp` up to the state machine. `inr` is a segment dropped before it. -/
def forwardOptions (profile : BuildProfile) (state : TcpState) (h : TcpHeader) (s : OptionState) :
    Option (OptionState ⊕ OptionState) :=
  if h.hasFlag TcpHeader.SYN then (forwardSyn profile h s).map .inl
  else if h.hasFlag TcpHeader.ACK then forwardAck state h s
  else some (.inl s)

/-! ## What a socket sends -/

/-- The loop of `CalculateWScale`. -/
def wScaleLoop (maxWinSize maxSpace scale : Nat) : Nat :=
  if maxWinSize < maxSpace then wScaleLoop maxWinSize (maxSpace / 2) (scale + 1) else scale
termination_by maxSpace

/-- `CalculateWScale`. The counter is a `uint8_t` and runs to 32 at most. -/
def calculateWScale (s : OptionState) : Byte :=
  cappedScale (BitVec.ofNat 8 (wScaleLoop s.maxWinSize.toNat s.maxBufferSize.toNat 0))

/-- `TcpOptionWinScale::SetScale`. -/
def setScale (profile : BuildProfile) (scale : Byte) : Option TcpOption := do
  nsAssert profile (scale ≤ 14)
  return .winScale scale

/-- `AddOptionWScale`: the shift announced is stored at once. -/
def addOptionWScale (profile : BuildProfile) (h : TcpHeader) (s : OptionState) :
    Option (TcpHeader × OptionState) := do
  nsAssert profile (h.hasFlag TcpHeader.SYN)
  let option ← setScale profile (calculateWScale s)
  return ((h.appendOption option).1, { s with rcvWindShift := calculateWScale s })

def addOptionSackPermitted (profile : BuildProfile) (h : TcpHeader) : Option TcpHeader := do
  nsAssert profile (h.hasFlag TcpHeader.SYN)
  return (h.appendOption .sackPermitted).1

/-! The options `SendEmptyPacket` adds to a SYN, if they are enabled. -/

def addScaleOption (profile : BuildProfile) (h : TcpHeader) (s : OptionState) :
    Option (TcpHeader × OptionState) :=
  if s.winScalingEnabled then addOptionWScale profile h s else some (h, s)

def addSackOption (profile : BuildProfile) (h : TcpHeader) (s : OptionState) : Option TcpHeader :=
  if s.sackEnabled then addOptionSackPermitted profile h else some h

/-- `AddOptionSack`: as many blocks as the header has room for. -/
def addOptionSack (sackList : SackList) (h : TcpHeader) : TcpHeader :=
  let optionLenAvail := TcpHeader.maxOptionsLen - h.optionsLen.toNat
  let allowedSackBlocks := (optionLenAvail - 2) / 8
  if allowedSackBlocks = 0 ∨ sackList = [] then h
  else (h.appendOption (.sack (sackList.take allowedSackBlocks))).1

/-- `AddOptions`: the options of every segment. -/
def addOptions (now : BitVec 32) (s : OptionState) (h : TcpHeader) : TcpHeader :=
  (h.appendOptionIf s.timestampEnabled (.ts now s.timestampToEcho)).appendOptionIf
    s.congestionWindowEnabled (.cwnd s.cWnd)

/-- `AdvertisedWindowSize`, where `space` is what the receive buffer leaves free. -/
def advertisedWindowSize (scale : Bool) (space : BitVec 32) (s : OptionState) : BitVec 16 :=
  let w := if scale then space >>> s.rcvWindShift.toNat else space
  if s.maxWinSize.setWidth 32 < w then s.maxWinSize else w.setWidth 16

end Ns3.TcpSocketBase
