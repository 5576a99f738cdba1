import Ns3.Internet.TcpSocketState

/-!
# TCP CERL

`TcpCerl` tells random losses from congestion by the queueing delay. A congestion
loss in a new window reduces the window as usual; for any other loss it saves the
window at the start of the recovery and restores it at the end.

The statistics that decide are a parameter. `TcpCerl`, `TcpCerlPlus` and
`TcpCerlX` differ only in them: each has its own `PktsAcked` and its own factor
in `isCongestionLoss`, computed in floating point.
-/

namespace Ns3

/-- The statistics of delays, kept in members of type `τ`. -/
structure CerlStatistics (τ : Type) where
  /-- `PktsAcked`, of the clock and the round-trip time. -/
  pktsAcked : Int → Int → τ → τ
  isCongestionLoss : τ → Bool

/-- The members of `TcpCerl`. `m_oldCwnd` is an `int32_t`, negative for none. -/
structure TcpCerl (τ : Type) where
  oldCwnd : Int := -1
  enteredRecovery : Bool := false
  decreaseCwnd : Bool := false
  maxSentSeq : SequenceNumber32 := ⟨0⟩
  statistics : τ
  deriving DecidableEq

namespace TcpCerl

variable {τ : Type}

def slowStart (tcb : TcpSocketState) (segmentsAcked : BitVec 32) : Windows × BitVec 32 :=
  if 1 ≤ segmentsAcked then
    ({ tcb.toWindows with cWnd := tcb.cWnd + tcb.segmentSize }, segmentsAcked - 1)
  else (tcb.toWindows, 0)

/-- `CongestionAvoidance`: the quotient is rounded down, and at least 1. -/
def congestionAvoidance (segmentSize : BitVec 32) (w : Windows) (segmentsAcked : BitVec 32) :
    Windows :=
  if 0 < segmentsAcked then
    let adder := max 1 ((segmentSize * segmentSize).toNat / w.cWnd.toNat)
    { w with cWnd := w.cWnd + BitVec.ofNat 32 adder }
  else w

def increaseWindow (tcb : TcpSocketState) (segmentsAcked : BitVec 32) : Windows :=
  let (w, segmentsAcked) :=
    if tcb.cWnd < tcb.ssThresh then slowStart tcb segmentsAcked else (tcb.toWindows, segmentsAcked)
  if w.ssThresh ≤ w.cWnd then congestionAvoidance tcb.segmentSize w segmentsAcked else w

/-- `std::max(2 * segmentSize, bytesInFlight / 2)`. -/
def reduced (tcb : TcpSocketState) (bytesInFlight : BitVec 32) : BitVec 32 :=
  if 2 * tcb.segmentSize < bytesInFlight / 2 then bytesInFlight / 2 else 2 * tcb.segmentSize

/-- The test of `GetSsThresh`: a congestion loss, in a window after the last one. -/
def isCongestion (stats : CerlStatistics τ) (tcb : TcpSocketState) (c : TcpCerl τ) : Bool :=
  (tcb.lastAckedSeq.subNat 1).gt c.maxSentSeq && stats.isCongestionLoss c.statistics

def getSsThresh (stats : CerlStatistics τ) (profile : BuildProfile) (tcb : TcpSocketState)
    (bytesInFlight : BitVec 32) (c : TcpCerl τ) : Option (BitVec 32 × TcpCerl τ) := do
  nsAssert profile (0 < tcb.lastAckedSeq.value)
  if !c.enteredRecovery then
    return (reduced tcb bytesInFlight, c)
  else if isCongestion stats tcb c then
    return (reduced tcb bytesInFlight,
      { c with maxSentSeq := tcb.highTxMark, decreaseCwnd := true })
  else
    return (tcb.ssThresh, { c with oldCwnd := tcb.cWnd.toInt })

/-- `m_cWnd = m_ssThresh`. -/
def deflate (tcb : TcpSocketState) : Windows := { tcb.toWindows with cWnd := tcb.ssThresh }

def enterRecovery (tcb : TcpSocketState) (c : TcpCerl τ) : Windows × TcpCerl τ :=
  if !c.enteredRecovery then (deflate tcb, c)
  else if c.decreaseCwnd then
    (deflate tcb, { c with enteredRecovery := false, decreaseCwnd := false })
  else (tcb.toWindows, { c with enteredRecovery := false })

def exitRecovery (tcb : TcpSocketState) (c : TcpCerl τ) : Windows × TcpCerl τ :=
  if 0 ≤ c.oldCwnd then
    ({ tcb.toWindows with cWnd := BitVec.ofInt 32 c.oldCwnd }, { c with oldCwnd := -1 })
  else (deflate tcb, c)

def congestionStateSet (newState : TcpCongState) (c : TcpCerl τ) : TcpCerl τ :=
  if newState = .caRecovery then { c with enteredRecovery := true } else c

/-- The virtual functions. `CwndEvent`, `HasCongControl` and `CongControl` are those of
`TcpCongestionOps`. -/
def ops (stats : CerlStatistics τ) : TcpCongestionOps (TcpCerl τ) where
  getSsThresh := getSsThresh stats
  call
    | _, .increaseWindow segmentsAcked, tcb, c => (increaseWindow tcb segmentsAcked, c)
    | now, .pktsAcked _ rtt, tcb, c =>
      (tcb.toWindows, { c with statistics := stats.pktsAcked now rtt c.statistics })
    | _, .congestionStateSet newState, tcb, c => (tcb.toWindows, congestionStateSet newState c)
    | _, .cwndEvent _, tcb, c => (tcb.toWindows, c)
    | _, .enterRecovery, tcb, c => enterRecovery tcb c
    | _, .exitRecovery, tcb, c => exitRecovery tcb c
    | _, .congControl _ _ _, tcb, c => (tcb.toWindows, c)

/-- The statistics of `TcpCerl` itself, in nanoseconds. -/
structure Delays where
  rttMin : Int := 2 ^ 63 - 1
  lMax : Int := -2 ^ 63
  l : Int := 0
  deriving DecidableEq

/-- A `Time` multiplied by `num / den`, which gives a `Time` again: it is rounded. -/
def scaled (t num den : Int) : Int := (2 * (t * num) + den) / (2 * den)

/-- They are compared by `m_A`, which is taken to be exactly 0.55 here. -/
def delays : CerlStatistics Delays where
  pktsAcked _ rtt d :=
    let rttMin := min rtt d.rttMin
    { rttMin, l := rtt - rttMin, lMax := max d.lMax (rtt - rttMin) }
  isCongestionLoss d := scaled d.lMax 11 20 ≤ d.l

end TcpCerl

end Ns3
