import Ns3.Internet.TcpCerl.Recovery
import Ns3.Internet.TcpCerl.Statistics

/-!
# The first sample and the first recovery

`GetA` divides by the sum of the round-trip times, and `isCongestionLoss` is evaluated by
`GetSsThresh` when `CongestionStateSet` has announced a recovery. `ProcessAck` calls
`DupAck`, which may start the recovery, before it calls `PktsAcked`.

The calls of `GetSsThresh` are followed through the three functions that make them. The
announcement is up in one of them only.
-/

namespace Ns3.TcpSocketBase.Sender

variable {σ ρ : Type} (profile : BuildProfile) (ops : SenderOps σ ρ)

/-- `DupAck` up to `EnterRecovery`, if it comes to that. -/
def dupAckRecovers (s : Sender σ ρ) : Option (Sender σ ρ) :=
  if s.tcb.congState = .caOpen ∨ s.tcb.congState = .caDisorder then do
    let s := s.countDupAck
    nsAssert profile s.openAssertion
    let s := s.leaveOpen ops
    nsAssert profile s.disorderAssertion
    if s.recoversFromDisorder then some s else none
  else none

/-- `EnterRecovery` up to `GetSsThresh`. -/
def recoveryThreshold (s : Sender σ ρ) : Option (Sender σ ρ) := do
  nsAssert profile (s.tcb.congState != .caRecovery)
  let entry : RecoveryEntry σ := { tcb := s.tcb, congestionControl := s.congestionControl }
  let s ← s.markHead profile
  let s := { s with
    recover := s.tcb.highTxMark
    recoverActive := true
    trace.entry := entry
    trace.reinitialized := false }
  (s.changeCongState ops .caRecovery).bytesInFlight profile

/-- The state in which `EnterRecovery` calls `GetSsThresh` while an event is processed. -/
def recoveryCall (s : Sender σ ρ) : Event → Option (Sender σ ρ)
  | .receivedAck a => do
      match ← s.untilProcessAck profile ops a with
      | .inr _ => none
      | .inl call =>
        if call.sender.isDupack a.header.ackNumber call.scoreboardUpdated
          call.oldHeadSequence then
          let s ← { call.sender with tcb.lastAckedSeq := a.header.ackNumber }.dupAckRecovers
            profile ops
          s.recoveryThreshold profile ops
        else none
  | _ => none

/-- The calls of `GetSsThresh` while an event is processed, with the states they are made
in: in `EnterCwr`, in `EnterRecovery` and in `ReTxTimeout`. -/
inductive ThresholdCall (s : Sender σ ρ) : Event → Sender σ ρ → Prop
  | enterCwr {a : Ack} {bytesSacked : Nat} {u v w : Sender σ ρ}
      (read : s.readOptions profile a.header.options 0 = some (bytesSacked, u))
      (fresh : a.header.ackNumber.lt u.txBuffer.headSequence = false)
      (acked : u.discardAcked profile a.header.ackNumber a.currentDelivered = some v)
      (echo : (v.leaveCwr ops a.header.ackNumber).newEcho a.header u.txBuffer.headSequence = true)
      (other : (v.leaveCwr ops a.header.ackNumber).tcb.congState ≠ .caCwr)
      (counted : { v.leaveCwr ops a.header.ackNumber with
        ecnEchoSeq := a.header.ackNumber, tcb.ecnState := .ecnEceRcvd }.bytesInFlight profile =
          some w) : ThresholdCall s (.receivedAck a) w
  | enterRecovery {e : Event} {v : Sender σ ρ} (call : s.recoveryCall profile ops e = some v) :
      ThresholdCall s e v
  | reTxTimeout {turns : Nat} {u v : Sender σ ρ} (data : s.ignoresTimeout = false)
      (retries : s.dataRetrCount ≠ 0) (counted : s.bytesInFlight profile = some u)
      (lost : u.loseFlight profile = some v)
      (first : v.tcb.congState ≠ .caLoss ∨ v.txBuffer.isHeadRetransmitted = some false) :
      ThresholdCall s (.reTxTimeout turns) v

variable {profile : BuildProfile} {ops : SenderOps σ ρ} {s : Sender σ ρ}

end Ns3.TcpSocketBase.Sender

namespace Ns3.TcpCerl

open TcpSocketBase TcpSocketBase.Sender

variable {τ : Type} {stats : CerlStatistics τ} {algorithm : RecoveryAlgorithm}
  {profile : BuildProfile} {s t : Sender (TcpCerl τ) PrrState}

/-! ## What keeps the statistics -/

theorem call_statistics (now : Int) (call : CongestionCall) (tcb : TcpSocketState) (c : TcpCerl τ)
    (other : ∀ n rtt, call ≠ .pktsAcked n rtt) :
    ((ops stats).call now call tcb c).2.statistics = c.statistics := by
  cases call with
  | pktsAcked n rtt => exact absurd rfl (other n rtt)
  | congestionStateSet newState =>
    simp only [ops, congestionStateSet]
    split <;> rfl
  | enterRecovery =>
    simp only [ops, enterRecovery]
    split
    · rfl
    · split <;> rfl
  | exitRecovery =>
    simp only [ops, exitRecovery]
    split <;> rfl
  | _ => rfl

theorem bytesInFlight_statistics (run : s.bytesInFlight profile = some t) :
    t.congestionControl = s.congestionControl := by
  simp only [Sender.bytesInFlight, bind_returns, pure_returns] at run
  obtain ⟨bytes, -, rfl⟩ := run
  rfl

theorem setSsThresh_statistics {inFlight : BitVec 32}
    (run : s.setSsThresh profile (senderOps stats algorithm) inFlight = some t) :
    t.congestionControl.statistics = s.congestionControl.statistics := by
  simp only [setSsThresh, senderOps, ops, getSsThresh, bind_returns, pure_returns] at run
  obtain ⟨⟨ssThresh, c⟩, ⟨-, -, decided⟩, rfl⟩ := run
  split at decided
  · cases decided
    rfl
  · split at decided
    · cases decided
      rfl
    · cases decided
      rfl

theorem enterCwr_statistics {delivered : BitVec 32}
    (run : s.enterCwr profile (senderOps stats algorithm) delivered = some t) :
    t.congestionControl.statistics = s.congestionControl.statistics := by
  simp only [Sender.enterCwr, bind_returns, pure_returns] at run
  obtain ⟨u, counted, v, threshold, -, -, rfl⟩ := run
  have hook := @call_statistics _ stats v.around.now .enterRecovery
    ({ v with tcb.cWndInfl := v.tcb.ssThresh }.setCongState .caCwr).tcb v.congestionControl
    fun _ _ => CongestionCall.noConfusion
  refine hook.trans ((setSsThresh_statistics threshold).trans ?_)
  rw [bytesInFlight_statistics counted]

theorem leaveCwr_statistics (ack : SequenceNumber32) (s : Sender (TcpCerl τ) PrrState) :
    (s.leaveCwr (senderOps stats algorithm) ack).congestionControl = s.congestionControl := by
  unfold leaveCwr
  split
  · rfl
  · split <;> rfl

theorem receiveEcho_statistics {h : TcpHeader} {oldHeadSequence : SequenceNumber32}
    {delivered : BitVec 32}
    (run : s.receiveEcho profile (senderOps stats algorithm) h oldHeadSequence delivered = some t) :
    t.congestionControl.statistics = s.congestionControl.statistics := by
  unfold receiveEcho at run
  split at run
  · split at run
    · simp only at run
      split at run
      · cases run
        rfl
      · have same := enterCwr_statistics run
        exact same
    · cases run
      rfl
  · split at run
    · cases run
      rfl
    · cases run
      rfl

theorem discardAcked_statistics {ack : SequenceNumber32} {delivered : BitVec 32}
    (run : s.discardAcked profile ack delivered = some t) :
    t.congestionControl = s.congestionControl := by
  simp only [discardAcked, bind_returns, pure_returns] at run
  obtain ⟨b, -, rfl⟩ := run
  rfl

theorem loseFlight_statistics (run : s.loseFlight profile = some t) :
    t.congestionControl = s.congestionControl := by
  simp only [loseFlight, bind_returns, pure_returns] at run
  obtain ⟨b, -, rfl⟩ := run
  rfl

theorem untilProcessAck_statistics {a : Ack} {call : ProcessAckCall (TcpCerl τ) PrrState}
    (run : s.untilProcessAck profile (senderOps stats algorithm) a = some (.inl call)) :
    call.sender.congestionControl.statistics = s.congestionControl.statistics := by
  simp only [untilProcessAck, Option.bind_eq_bind, Option.bind_eq_some_iff] at run
  obtain ⟨-, -, -, -, ⟨bytesSacked, u⟩, read, rest⟩ := run
  obtain ⟨b, rfl, -⟩ := readOptions_eq read
  split at rest
  case isTrue => cases rest
  case isFalse =>
    simp only [Option.bind_eq_some_iff, Option.pure_def, Option.some.injEq, Sum.inl.injEq] at rest
    obtain ⟨v, discarded, w, echo, x, counted, rfl⟩ := rest
    rw [bytesInFlight_statistics counted, receiveEcho_statistics echo, leaveCwr_statistics,
      discardAcked_statistics discarded]

theorem recoveryThreshold_statistics
    (run : s.recoveryThreshold profile (senderOps stats algorithm) = some t) :
    t.congestionControl.statistics = s.congestionControl.statistics ∧
      t.congestionControl.enteredRecovery = true := by
  simp only [recoveryThreshold, bind_returns] at run
  obtain ⟨-, -, u, marked, counted⟩ := run
  obtain ⟨b, rfl⟩ := markHead_eq marked
  rw [bytesInFlight_statistics counted]
  exact ⟨rfl, rfl⟩

theorem dupAckRecovers_statistics
    (run : s.dupAckRecovers profile (senderOps stats algorithm) = some t) :
    t.congestionControl.statistics = s.congestionControl.statistics := by
  unfold dupAckRecovers at run
  split at run
  case isFalse => cases run
  case isTrue =>
    simp only [bind_returns] at run
    obtain ⟨-, -, -, -, run⟩ := run
    split at run
    case isFalse => cases run
    case isTrue =>
      cases run
      have counted : s.countDupAck.congestionControl = s.congestionControl := by
        unfold countDupAck
        split <;> rfl
      rw [← counted, leaveOpen]
      split <;> rfl

/-- The call of `EnterRecovery` finds the statistics of the state before the event. -/
theorem recoveryCall_statistics {e : Sender.Event}
    (run : s.recoveryCall profile (senderOps stats algorithm) e = some t) :
    t.congestionControl.statistics = s.congestionControl.statistics ∧
      t.congestionControl.enteredRecovery = true := by
  cases e with
  | receivedAck a =>
    simp only [recoveryCall, Option.bind_eq_bind, Option.bind_eq_some_iff] at run
    obtain ⟨call | _, until_, run⟩ := run
    · simp only at run
      split at run
      case isFalse => cases run
      case isTrue =>
        simp only [Option.bind_eq_some_iff] at run
        obtain ⟨u, recovers, threshold⟩ := run
        obtain ⟨same, announced⟩ := recoveryThreshold_statistics threshold
        refine ⟨same.trans ((dupAckRecovers_statistics recovers).trans ?_), announced⟩
        exact untilProcessAck_statistics until_
    · cases run
  | _ => cases run

/-! ## Runs -/

/-- Statistics, with whether a positive round-trip time was ever counted. -/
structure Noted (τ : Type) where
  statistics : τ
  sampled : Bool := false

/-- The same statistics, observed. -/
def noted (stats : CerlStatistics τ) : CerlStatistics (Noted τ) where
  pktsAcked now rtt t :=
    { statistics := stats.pktsAcked now rtt t.statistics, sampled := t.sampled || 0 < rtt }
  isCongestionLoss t := stats.isCongestionLoss t.statistics

/-- Whenever `isCongestionLoss` is evaluated while the event is processed, the statistics
are good. -/
def EvaluatesOn (good : τ → Prop) (stats : CerlStatistics τ) (algorithm : RecoveryAlgorithm)
    (profile : BuildProfile) (s : Sender (TcpCerl τ) PrrState) (e : Sender.Event) : Prop :=
  ∀ t, s.ThresholdCall profile (senderOps stats algorithm) e t →
    t.congestionControl.enteredRecovery = true → good t.congestionControl.statistics

/-- An event that starts a recovery finds good statistics. -/
def RecoversOn (good : τ → Prop) (stats : CerlStatistics τ) (algorithm : RecoveryAlgorithm)
    (profile : BuildProfile) (s : Sender (TcpCerl τ) PrrState) (e : Sender.Event) : Prop :=
  (s.recoveryCall profile (senderOps stats algorithm) e).isSome = true →
    good s.congestionControl.statistics

/-- In `EnterCwr` and `ReTxTimeout` no recovery is announced. -/
theorem Inv.evaluatesOn_iff (h : Inv stats algorithm s) {good : τ → Prop} {e : Sender.Event} :
    EvaluatesOn good stats algorithm profile s e ↔ RecoversOn good stats algorithm profile s e := by
  constructor
  · intro evaluates some_
    obtain ⟨t, call⟩ := Option.isSome_iff_exists.mp some_
    obtain ⟨same, announced⟩ := recoveryCall_statistics call
    exact same ▸ evaluates t (.enterRecovery call) announced
  · intro recovers t call announced
    cases call with
    | enterRecovery call =>
      rw [(recoveryCall_statistics call).1]
      exact recovers (Option.isSome_iff_exists.mpr ⟨t, call⟩)
    | enterCwr read fresh acked echo other counted =>
      obtain ⟨b, rfl, -⟩ := readOptions_eq read
      rw [bytesInFlight_statistics counted] at announced
      simp only [leaveCwr_statistics, discardAcked_statistics acked, h.entered] at announced
      cases announced
    | reTxTimeout data retries counted lost first =>
      rw [loseFlight_statistics lost, bytesInFlight_statistics counted, h.entered] at announced
      cases announced

theorem Fresh.inv (start : Fresh s) : Inv stats algorithm s := by
  refine ⟨start.entered, start.decrease, fun state => ?_, fun x mem => ?_⟩
  · simp [start.congState] at state
  · simp [start.exits] at mem

/-- The runs of a connection in which every evaluation is good are those in which every
recovery finds good statistics. -/
theorem evaluations_iff {good : τ → Prop} {events : List Sender.Event} (start : Fresh s) :
    Run.Meets (step profile (senderOps stats algorithm)) (EvaluatesOn good stats algorithm profile)
        s events ↔
      Run.Meets (step profile (senderOps stats algorithm)) (RecoversOn good stats algorithm profile)
        s events := by
  have both {C D : Sender (TcpCerl τ) PrrState → Sender.Event → Prop}
      (imp : ∀ s e, Inv stats algorithm s → C s e → D s e)
      (meets : Run.Meets (step profile (senderOps stats algorithm)) C s events) :
      Run.Meets (step profile (senderOps stats algorithm)) D s events :=
    meets.of_invariant start.inv (fun _ _ _ inv _ run => inv.step run) imp
  exact ⟨both fun _ _ inv => inv.evaluatesOn_iff.mp, both fun _ _ inv => inv.evaluatesOn_iff.mpr⟩

/-- A positive round-trip time was counted, and the sum is positive. -/
def Divisible (sum : τ → Int) (t : Noted τ) : Prop := t.sampled = true ∧ 0 < sum t.statistics
  deriving Decidable

instance (good : τ → Prop) [DecidablePred good] (s : Sender (TcpCerl τ) PrrState)
    (e : Sender.Event) :
    Decidable (RecoversOn good stats algorithm profile s e) :=
  inferInstanceAs (Decidable (_ → _))

/-! ## The first ACK -/

/-- A connection with CERL+ and a window of nine segments of two bytes. -/
def unsampled : Sender (TcpCerl (Noted Samples)) PrrState where
  congestionControl := { statistics := { statistics := {} } }
  recoveryOps := {}
  txBuffer := TcpTxBuffer.start (.ofNat 1) 1000 3 2 true
  tcb := {
    cWnd := 18, cWndInfl := 18, ssThresh := 18, segmentSize := 2
    highTxMark := .ofNat 1, nextTxSequence := .ofNat 1 }
  around := { highRxAckMark := .ofNat 1 }

/-- A window of data is sent. -/
def sends : List Sender.Event := [.send (List.replicate 60 0), .sendPendingData 20]

end Ns3.TcpCerl
