import Ns3.Network.SequenceNumber
import Ns3.Core.Assert

/-!
# The congestion state of a socket

`TcpSocketState` is what a TCP socket shares with its congestion control and its
recovery algorithm. Both are objects behind virtual functions, which the socket
calls at fixed points: they read the whole record, and write its windows and
members of their own. An algorithm is therefore a record of functions over a type
for its own members.
-/

namespace Ns3

/-- `TcpSocketState::TcpCongState_t`. -/
inductive TcpCongState where
  | caOpen
  | caDisorder
  | caCwr
  | caRecovery
  | caLoss
  deriving DecidableEq

/-- `TcpSocketState::TcpCAEvent_t`. -/
inductive TcpCAEvent where
  | txStart
  | cwndRestart
  | completeCwr
  | loss
  | ecnNoCe
  | ecnIsCe
  | delayedAck
  | nonDelayedAck
  deriving DecidableEq

/-- `TcpSocketState::EcnState_t`. -/
inductive EcnState where
  | ecnDisabled
  | ecnIdle
  | ecnCeRcvd
  | ecnSendingEce
  | ecnEceRcvd
  | ecnCwrSent
  deriving DecidableEq

/-- The members of `TcpSocketState` that the algorithms write. -/
structure Windows where
  cWnd : BitVec 32 := 0
  cWndInfl : BitVec 32 := 0
  ssThresh : BitVec 32 := 0
  deriving DecidableEq

/-- The members of `TcpSocketState` that the sender uses. -/
structure TcpSocketState extends Windows where
  initialCWnd : BitVec 32 := 10
  initialSsThresh : BitVec 32 := BitVec.allOnes 32
  isRetransDataAcked : Bool := false
  segmentSize : BitVec 32 := 536
  lastAckedSeq : SequenceNumber32 := ⟨0⟩
  congState : TcpCongState := .caOpen
  ecnState : EcnState := .ecnDisabled
  highTxMark : SequenceNumber32 := ⟨0⟩
  nextTxSequence : SequenceNumber32 := ⟨0⟩
  bytesInFlight : BitVec 32 := 0
  lastRtt : Int := 0
  lastAckedSackedBytes : BitVec 32 := 0
  deriving DecidableEq

/-- The calls of a `TcpCongestionOps` that have no result, with their arguments. -/
inductive CongestionCall where
  | increaseWindow (segmentsAcked : BitVec 32)
  | pktsAcked (segmentsAcked : BitVec 32) (rtt : Int)
  | congestionStateSet (newState : TcpCongState)
  | cwndEvent (event : TcpCAEvent)
  | enterRecovery
  | exitRecovery
  | congControl (delivered lost priorInFlight : BitVec 32)

/-- A `TcpCongestionOps` with members of type `σ`. Its functions may read the clock,
which is the first argument of `call`. -/
structure TcpCongestionOps (σ : Type) where
  hasCongControl : Bool := false
  getSsThresh : BuildProfile → TcpSocketState → BitVec 32 → σ → Option (BitVec 32 × σ)
  call : Int → CongestionCall → TcpSocketState → σ → Windows × σ

/-- The calls of a `TcpRecoveryOps`. -/
inductive RecoveryCall where
  | enterRecovery (dupAckCount unAckDataCount deliveredBytes : BitVec 32)
  | doRecovery (deliveredBytes : BitVec 32)
  | exitRecovery
  | updateBytesSent (bytesSent : BitVec 32)

/-- A `TcpRecoveryOps` with members of type `ρ`. -/
structure TcpRecoveryOps (ρ : Type) where
  call : RecoveryCall → TcpSocketState → ρ → Windows × ρ

end Ns3
