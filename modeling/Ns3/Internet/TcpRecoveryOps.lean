import Ns3.Internet.TcpSocketState
import Mathlib.Algebra.Order.Floor.Div

/-!
# The recovery algorithms

`TcpClassicRecovery` inflates the window by a segment for each duplicate ACK and
sets it to the threshold at the end. `TcpPrrRecovery` reduces it in proportion to
what is delivered, and leaves it alone at the end.
-/

namespace Ns3

/-- `TcpPrrRecovery::ReductionBound_t`. -/
inductive ReductionBound where
  | crb
  | ssrb
  deriving DecidableEq

/-- The members of `TcpPrrRecovery`. -/
structure PrrState where
  prrDelivered : BitVec 32 := 0
  prrOut : BitVec 32 := 0
  recoveryFlightSize : BitVec 32 := 0
  deriving DecidableEq

namespace TcpClassicRecovery

/-- The inflated window, which the congestion window follows. -/
def inflate (tcb : TcpSocketState) (cWndInfl : BitVec 32) : Windows :=
  { tcb.toWindows with cWnd := cWndInfl, cWndInfl := cWndInfl }

def enterRecovery (dupAckCount : BitVec 32) (tcb : TcpSocketState) : Windows :=
  inflate tcb (tcb.cWnd + dupAckCount * tcb.segmentSize)

def doRecovery (tcb : TcpSocketState) : Windows := inflate tcb (tcb.cWndInfl + tcb.segmentSize)

def exitRecovery (tcb : TcpSocketState) : Windows := inflate tcb tcb.ssThresh

end TcpClassicRecovery

namespace TcpPrrRecovery

/-- The conversion of a `double` to `int`. Out of range it is undefined; the value is
then the one that x86 gives. -/
def toInt (x : Int) : Int := if -2 ^ 31 ≤ x ∧ x < 2 ^ 31 then x else -2 ^ 31

/-- The proportional part: `ceil (prrDelivered * ssThresh / recoveryFlightSize) - prrOut`.
A division by zero is out of the range of `int` too. -/
def proportional (tcb : TcpSocketState) (s : PrrState) : Int :=
  if s.recoveryFlightSize = 0 then -2 ^ 31
  else toInt (((s.prrDelivered * tcb.ssThresh).toNat ⌈/⌉ s.recoveryFlightSize.toNat : Nat) -
    s.prrOut.toNat)

/-- The bound on what is sent once less than the threshold is in flight. -/
def limit (mode : ReductionBound) (deliveredBytes : BitVec 32) (tcb : TcpSocketState)
    (s : PrrState) : Int :=
  match mode with
  | .crb => (s.prrDelivered - s.prrOut).toInt
  | .ssrb =>
    if tcb.isRetransDataAcked then
      let room := s.prrDelivered - s.prrOut
      ((if room < deliveredBytes then deliveredBytes else room) + tcb.segmentSize).toInt
    else deliveredBytes.toInt

def doRecovery (mode : ReductionBound) (deliveredBytes : BitVec 32) (tcb : TcpSocketState)
    (s : PrrState) : Windows × PrrState :=
  let s := { s with prrDelivered := s.prrDelivered + deliveredBytes }
  let sendCount :=
    if tcb.ssThresh < tcb.bytesInFlight then proportional tcb s
    else min (limit mode deliveredBytes tcb s) (tcb.ssThresh - tcb.bytesInFlight).toInt
  let sendCount := max sendCount (if 0 < s.prrOut then 0 else tcb.segmentSize.toInt)
  let cWnd := tcb.bytesInFlight + BitVec.ofInt 32 sendCount
  ({ tcb.toWindows with cWnd := cWnd, cWndInfl := cWnd }, s)

def enterRecovery (mode : ReductionBound) (unAckDataCount deliveredBytes : BitVec 32)
    (tcb : TcpSocketState) : Windows × PrrState :=
  doRecovery mode deliveredBytes tcb { recoveryFlightSize := unAckDataCount }

def exitRecovery (tcb : TcpSocketState) : Windows := { tcb.toWindows with cWndInfl := tcb.cWnd }

end TcpPrrRecovery

/-- The algorithm a socket was configured with. -/
inductive RecoveryAlgorithm where
  | classic
  | prr (mode : ReductionBound)

/-- Its virtual functions. The classic algorithm has no members. -/
def RecoveryAlgorithm.ops : RecoveryAlgorithm → TcpRecoveryOps PrrState
  | .classic => { call := fun
      | .enterRecovery dupAckCount _ _, tcb, s =>
        (TcpClassicRecovery.enterRecovery dupAckCount tcb, s)
      | .doRecovery _, tcb, s => (TcpClassicRecovery.doRecovery tcb, s)
      | .exitRecovery, tcb, s => (TcpClassicRecovery.exitRecovery tcb, s)
      | .updateBytesSent _, tcb, s => (tcb.toWindows, s) }
  | .prr mode => { call := fun
      | .enterRecovery _ unAckDataCount deliveredBytes, tcb, _ =>
        TcpPrrRecovery.enterRecovery mode unAckDataCount deliveredBytes tcb
      | .doRecovery deliveredBytes, tcb, s => TcpPrrRecovery.doRecovery mode deliveredBytes tcb s
      | .exitRecovery, tcb, s => (TcpPrrRecovery.exitRecovery tcb, s)
      | .updateBytesSent bytesSent, tcb, s =>
        (tcb.toWindows, { s with prrOut := s.prrOut + bytesSent }) }

namespace RecoveryAlgorithm

@[simp] theorem call_ssThresh (algorithm : RecoveryAlgorithm) (call : RecoveryCall)
    (tcb : TcpSocketState) (s : PrrState) :
    (algorithm.ops.call call tcb s).1.ssThresh = tcb.ssThresh := by
  cases algorithm <;> cases call <;> rfl

theorem exitRecovery_cWnd (algorithm : RecoveryAlgorithm) (tcb : TcpSocketState) (s : PrrState) :
    (algorithm.ops.call .exitRecovery tcb s).1.cWnd =
      match algorithm with
      | .classic => tcb.ssThresh
      | .prr _ => tcb.cWnd := by
  cases algorithm <;> rfl

end RecoveryAlgorithm

end Ns3
