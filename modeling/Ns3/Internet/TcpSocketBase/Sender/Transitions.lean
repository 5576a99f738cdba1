import Ns3.Internet.TcpSocketBase.Sender.Frame
import Ns3.Internet.TcpTxBuffer.Flags

/-!
# The transitions of the congestion state

The functions that change the congestion state, each with one theorem that says from
which state to which it leads. `DupAck` and `ProcessAck` get their case distinction
here, once: what is not a transition is a `Frame`.
-/

namespace Ns3.TcpSocketBase.Sender

open List Option

variable {σ ρ : Type} {profile : BuildProfile} {ops : SenderOps σ ρ} {s t : Sender σ ρ}

/-! ## The first half of `ReceivedAck` -/

/-- An ECN echo that was not reacted to yet. -/
def newEcho (h : TcpHeader) (oldHeadSequence : SequenceNumber32) (s : Sender σ ρ) : Bool :=
  s.echoes h oldHeadSequence && s.ecnEchoSeq.lt h.ackNumber

/-- The ACK brings a new ECN echo, and `CA_CWR` is not already entered. -/
def entersCwr (h : TcpHeader) (s : Sender σ ρ) : Bool :=
  s.newEcho h s.txBuffer.headSequence && (s.tcb.congState != .caCwr || s.leavesCwr h.ackNumber)

/-- The state between `CA_CWR` and a new entry into it. -/
def afterCwr (ack : SequenceNumber32) (s : Sender σ ρ) : Sender σ ρ :=
  if s.leavesCwr ack then s.setCongState .caOpen else s

theorem afterCwr_congState (ack : SequenceNumber32) (s : Sender σ ρ) :
    ((s.afterCwr ack).tcb.congState != .caCwr) =
      (s.tcb.congState != .caCwr || s.leavesCwr ack) := by
  unfold afterCwr
  cases leaves : s.leavesCwr ack with
  | false => simp
  | true => simp [setCongState]

theorem Frame.leavesCwr (h : Frame ops s t) (ack : SequenceNumber32) :
    t.leavesCwr ack = s.leavesCwr ack := by
  rw [Sender.leavesCwr, Sender.leavesCwr, h.congState, h.recover]

theorem Frame.afterCwr (h : Frame ops s t) (ack : SequenceNumber32) :
    Frame ops (s.afterCwr ack) (t.afterCwr ack) := by
  rw [Sender.afterCwr, Sender.afterCwr, h.leavesCwr ack]
  split
  · exact h.setCongState .caOpen
  · exact h

theorem readOptions_eq {options : List TcpOption} {bytes bytesSacked : Nat}
    (run : s.readOptions profile options bytes = some (bytesSacked, t)) :
    ∃ b, t = { s with txBuffer := b } ∧ b.firstByteSeq = s.txBuffer.firstByteSeq := by
  induction options generalizing s bytes with
  | nil =>
    obtain ⟨-, rfl⟩ := Prod.mk.inj (some.inj run)
    exact ⟨s.txBuffer, rfl, rfl⟩
  | cons option rest ih =>
    unfold readOptions at run
    split at run
    case h_1 nil => exact absurd nil (cons_ne_nil _ _)
    case h_2 same =>
      cases same
      simp only [bind_returns] at run
      obtain ⟨⟨n, txBuffer⟩, updated, later⟩ := run
      obtain ⟨b, rfl, head⟩ := ih later
      exact ⟨b, rfl, head.trans (TcpTxBuffer.update_same updated).head⟩
    case h_3 same =>
      cases same
      exact ih run

theorem leaveCwr_frame (ack : SequenceNumber32) (s : Sender σ ρ) :
    Frame ops (s.afterCwr ack) (s.leaveCwr ops ack) := by
  unfold leaveCwr afterCwr
  cases leaves : s.leavesCwr ack with
  | false => exact .refl ops s
  | true =>
    simp only [Bool.not_true, Bool.false_eq_true, if_false, if_true]
    split
    · exact .refl ops _
    · have deflated : Frame ops (s.setCongState .caOpen) (s.setCongState .caOpen).deflate :=
        Frame.write _ _ _
      refine (deflated.trans (Frame.recoveryCall .exitRecovery _)).trans ?_
      exact Frame.congestion _ (.cwndEvent .completeCwr) trivial

theorem leaveCwr_newEcho (ack : SequenceNumber32) (h : TcpHeader)
    (oldHeadSequence : SequenceNumber32) (s : Sender σ ρ) :
    (s.leaveCwr ops ack).newEcho h oldHeadSequence = s.newEcho h oldHeadSequence := by
  unfold leaveCwr
  split
  · rfl
  · split <;> rfl

theorem discardAcked_frame (ops : SenderOps σ ρ) {ack : SequenceNumber32} {delivered : BitVec 32}
    (run : s.discardAcked profile ack delivered = some t) :
    Frame ops s t ∧ ∀ h oldHeadSequence, t.newEcho h oldHeadSequence =
      s.newEcho h oldHeadSequence := by
  refine ⟨.discardAcked run, fun h oldHeadSequence => ?_⟩
  simp only [Sender.discardAcked, bind_returns, pure_returns] at run
  obtain ⟨txBuffer, -, rfl⟩ := run
  rfl

theorem enterCwr_kept {delivered : BitVec 32} (run : s.enterCwr profile ops delivered = some t) :
    Kept { s.setCongState .caCwr with recover := s.tcb.highTxMark } t := by
  simp only [enterCwr, bytesInFlight, setSsThresh, bind_returns, pure_returns] at run
  obtain ⟨u, ⟨bytes, -, rfl⟩, v, ⟨⟨ssThresh, c⟩, -, rfl⟩, -, -, rfl⟩ := run
  unfold invokeRecovery
  split <;> exact { Kept.refl _ with }

/-- The ECN reaction enters `CA_CWR` or leaves the state alone. -/
theorem receiveEcho_cases {h : TcpHeader} {oldHeadSequence : SequenceNumber32}
    {delivered : BitVec 32} (run : s.receiveEcho profile ops h oldHeadSequence delivered = some t) :
    (s.newEcho h oldHeadSequence && s.tcb.congState != .caCwr) = false ∧ Frame ops s t ∨
      (s.newEcho h oldHeadSequence && s.tcb.congState != .caCwr) = true ∧
        ∃ u, Frame ops s u ∧ u.enterCwr profile ops delivered = some t := by
  simp only [receiveEcho, newEcho] at run ⊢
  split at run
  case isTrue echo =>
    split at run
    case isTrue new =>
      split at run
      case isTrue cwr =>
        cases run
        exact .inl ⟨by simp [cwr], { Frame.refl ops s with }⟩
      case isFalse other =>
        refine .inr ⟨by simp [echo, new, other], _, ?_, run⟩
        exact { Frame.refl ops s with }
    case isFalse old =>
      cases run
      exact .inl ⟨by simp [old], .refl ops s⟩
  case isFalse silent =>
    refine .inl ⟨by simp [silent], ?_⟩
    split at run
    · cases run
      exact { Frame.refl ops s with }
    · cases run
      exact .refl ops s

/-- What `ReceivedAck` does before `ProcessAck`: an ACK may end `CA_CWR`, and an echo may
enter it again. -/
theorem untilProcessAck_cases {a : Ack} {call : ProcessAckCall σ ρ}
    (run : s.untilProcessAck profile ops a = some (.inl call)) :
    call.oldHeadSequence = s.txBuffer.headSequence ∧
      a.header.ackNumber.lt call.oldHeadSequence = false ∧
      (∃ bytesSacked u, s.readOptions profile a.header.options 0 = some (bytesSacked, u) ∧
        call.scoreboardUpdated = decide (0 < bytesSacked)) ∧
      ∃ u, Frame ops (s.afterCwr a.header.ackNumber) u ∧
        (s.entersCwr a.header = false ∧ Frame ops u call.sender ∨
          s.entersCwr a.header = true ∧
            ∃ v, u.enterCwr profile ops a.currentDelivered = some v ∧ Frame ops v call.sender) := by
  simp only [untilProcessAck, bind_eq_bind, bind_eq_some_iff] at run
  obtain ⟨-, -, -, -, ⟨bytesSacked, u⟩, read, rest⟩ := run
  obtain ⟨b, rfl, head⟩ := readOptions_eq read
  split at rest
  case isTrue => cases rest
  case isFalse fresh =>
    simp only [bind_eq_some_iff, Option.pure_def, some.injEq, Sum.inl.injEq] at rest
    obtain ⟨v, discarded, w, echo, x, counted, rfl⟩ := rest
    refine ⟨head, by simpa using fresh, ⟨bytesSacked, _, read, rfl⟩, ?_⟩
    obtain ⟨kept, sameEcho⟩ := discardAcked_frame ops discarded
    have acked : Frame ops s v := { kept with }
    have left := (acked.afterCwr a.header.ackNumber).trans (leaveCwr_frame a.header.ackNumber v)
    have enters : ((v.leaveCwr ops a.header.ackNumber).newEcho a.header b.headSequence &&
        (v.leaveCwr ops a.header.ackNumber).tcb.congState != .caCwr) = s.entersCwr a.header := by
      rw [leaveCwr_newEcho, sameEcho, left.congState, afterCwr_congState, entersCwr,
        TcpTxBuffer.headSequence, head]
      rfl
    obtain ⟨quiet, unchanged⟩ | ⟨entered, u, noted, cwr⟩ := receiveEcho_cases echo
    · exact ⟨w, left.trans unchanged, .inl ⟨enters.symm.trans quiet, .bytesInFlight counted⟩⟩
    · exact ⟨u, left.trans noted, .inr
        ⟨enters.symm.trans entered, w, cwr, .bytesInFlight counted⟩⟩

theorem enterCwr_highTxMark {delivered : BitVec 32}
    (run : s.enterCwr profile ops delivered = some t) : t.tcb.highTxMark = s.tcb.highTxMark := by
  simp only [enterCwr, bytesInFlight, setSsThresh, bind_returns, pure_returns] at run
  obtain ⟨u, ⟨bytes, -, rfl⟩, v, ⟨⟨ssThresh, c⟩, -, rfl⟩, -, -, rfl⟩ := run
  unfold invokeRecovery
  split <;> rfl

theorem receiveEcho_highTxMark {h : TcpHeader} {oldHeadSequence : SequenceNumber32}
    {delivered : BitVec 32} (run : s.receiveEcho profile ops h oldHeadSequence delivered = some t) :
    t.tcb.highTxMark = s.tcb.highTxMark := by
  simp only [receiveEcho] at run
  split at run
  · split at run
    · split at run
      · cases run
        rfl
      · have entered := enterCwr_highTxMark run
        exact entered
    · cases run
      rfl
  · split at run
    · cases run
      rfl
    · cases run
      rfl

theorem leaveCwr_highTxMark (ack : SequenceNumber32) (s : Sender σ ρ) :
    (s.leaveCwr ops ack).tcb.highTxMark = s.tcb.highTxMark := by
  unfold leaveCwr
  split
  · rfl
  · split <;> rfl

/-- Nothing is sent before `ProcessAck`. -/
theorem untilProcessAck_highTxMark {a : Ack} {call : ProcessAckCall σ ρ}
    (run : s.untilProcessAck profile ops a = some (.inl call)) :
    call.sender.tcb.highTxMark = s.tcb.highTxMark := by
  simp only [untilProcessAck, bind_returns] at run
  obtain ⟨-, -, -, -, ⟨bytesSacked, u⟩, read, rest⟩ := run
  obtain ⟨b, rfl, -⟩ := readOptions_eq read
  split at rest
  case isTrue => cases rest
  case isFalse =>
    simp only [discardAcked, bytesInFlight, bind_returns, pure_returns, Sum.inl.injEq] at rest
    obtain ⟨v, ⟨b', -, rfl⟩, w, echo, x, ⟨bytes, -, rfl⟩, rfl⟩ := rest
    exact (receiveEcho_highTxMark echo).trans (leaveCwr_highTxMark a.header.ackNumber _)

/-! ## Duplicate ACKs -/

theorem markHead_eq (run : s.markHead profile = some t) : ∃ b, t = { s with txBuffer := b } := by
  unfold markHead at run
  split at run
  case isTrue =>
    simp only [bind_returns, pure_returns] at run
    obtain ⟨b, -, rfl⟩ := run
    exact ⟨_, rfl⟩
  case isFalse =>
    split at run
    · cases run
      exact ⟨_, rfl⟩
    · cases run
      exact ⟨s.txBuffer, rfl⟩

theorem invokeRecovery_kept (ops : SenderOps σ ρ) (delivered : BitVec 32) (s : Sender σ ρ) :
    Kept s (s.invokeRecovery ops delivered) := by
  unfold invokeRecovery
  split <;> exact { Kept.refl s with }

/-- The state of a recovery that starts in `s`. -/
def recovering (s : Sender σ ρ) : Sender σ ρ :=
  { s.setCongState .caRecovery with
    recover := s.tcb.highTxMark
    recoverActive := true
    trace.entry := some { tcb := s.tcb, congestionControl := s.congestionControl }
    trace.reinitialized := false }

theorem beginRecovery_kept {delivered : BitVec 32}
    (run : s.beginRecovery profile ops delivered = some t) : Kept s.recovering t := by
  simp only [beginRecovery, bytesInFlight, setSsThresh, bind_returns, pure_returns] at run
  obtain ⟨-, -, u, marked, v, ⟨bytes, -, rfl⟩, w, ⟨⟨ssThresh, c⟩, -, rfl⟩, rfl⟩ := run
  obtain ⟨b, rfl⟩ := markHead_eq marked
  exact { invokeRecovery_kept ops delivered _ with }

theorem enterRecovery_kept {delivered : BitVec 32}
    (run : s.enterRecovery profile ops delivered = some t) : Kept s.recovering t := by
  simp only [enterRecovery, bind_returns] at run
  obtain ⟨u, began, sent⟩ := run
  exact (beginRecovery_kept began).trans (Frame.doRetransmit sent).toKept

/-- One more duplicate ACK, in `CA_DISORDER`. -/
def disordered (s : Sender σ ρ) : Sender σ ρ :=
  { s.setCongState .caDisorder with dupAckCount := s.dupAckCount + 1 }

theorem addRenoSack_frame {wanted : Bool} (run : s.addRenoSack profile wanted = some t) :
    Frame ops s t := by
  unfold addRenoSack at run
  split at run
  · obtain ⟨b, -, rfl⟩ := map_eq_some_iff.mp run
    exact { Frame.refl ops s with }
  · cases run
    exact .refl ops s

theorem dupAckInRecovery_frame {delivered : BitVec 32}
    (run : s.dupAckInRecovery profile ops delivered = some t) : Frame ops s t := by
  simp only [dupAckInRecovery, bind_returns, pure_returns] at run
  obtain ⟨u, sacked, rfl⟩ := run
  refine (addRenoSack_frame sacked).trans ?_
  split
  · exact .refl ops u
  · exact .recoveryCall _ u

theorem dupAckInDisorder_cases {delivered : BitVec 32}
    (run : s.dupAckInDisorder profile ops delivered = some t) :
    s.enterRecovery profile ops delivered = some t ∨
      Frame ops s t ∧ s.recoversFromDisorder = false := by
  simp only [dupAckInDisorder, bind_eq_bind, bind_eq_some_iff] at run
  obtain ⟨-, -, rest⟩ := run
  split at rest
  case isTrue =>
    simp only [bind_eq_some_iff, Option.pure_def, some.injEq] at rest
    obtain ⟨u, entered, -, -, rfl⟩ := rest
    exact .inl entered
  case isFalse stays => exact .inr ⟨addRenoSack_frame rest, by simpa using stays⟩

/-- A duplicate counted in `CA_OPEN` or `CA_DISORDER` leads to `CA_DISORDER`. -/
theorem leaveOpen_frame (state : s.tcb.congState = .caOpen ∨ s.tcb.congState = .caDisorder) :
    Frame ops s.disordered (s.countDupAck.leaveOpen ops) := by
  obtain isOpen | isDisorder := state
  · have told : Frame ops _ _ := Frame.congestion { s with dupAckCount := s.dupAckCount + 1 }
      (.congestionStateSet .caDisorder) trivial
    simp only [countDupAck, leaveOpen, isOpen, reduceCtorEq, if_false, if_true]
    exact told.setCongState .caDisorder
  · simp only [countDupAck, leaveOpen, isDisorder, reduceCtorEq, if_false]
    exact { Frame.refl ops { s with dupAckCount := s.dupAckCount + 1 } with congState :=
      isDisorder }

/-- What `DupAck` does: nothing after a timeout, no transition in a recovery or in
`CA_CWR`, and otherwise `CA_DISORDER`, from which a recovery may start. -/
theorem dupAck_cases {delivered : BitVec 32} (run : s.dupAck profile ops delivered = some t) :
    (s.tcb.congState = .caLoss ∨ s.tcb.congState = .caRecovery) ∧ Frame ops s t ∨
      s.tcb.congState = .caCwr ∧ t = { s with dupAckCount := s.dupAckCount + 1 } ∨
      (s.tcb.congState = .caOpen ∨ s.tcb.congState = .caDisorder) ∧
        ∃ u, Frame ops s.disordered u ∧
          (u.enterRecovery profile ops delivered = some t ∨
            Frame ops u t ∧ u.recoversFromDisorder = false) := by
  have counted (state : s.tcb.congState = .caOpen ∨ s.tcb.congState = .caDisorder)
      (rest : s.dupAck profile ops delivered = some t) :
      ∃ u, Frame ops s.disordered u ∧ (u.enterRecovery profile ops delivered = some t ∨
        Frame ops u t ∧ u.recoversFromDisorder = false) := by
    have frame : Frame ops s.disordered (s.countDupAck.leaveOpen ops) := leaveOpen_frame state
    have inDisorder : (s.countDupAck.leaveOpen ops).tcb.congState = .caDisorder := frame.congState
    have notLoss : ¬ s.tcb.congState = .caLoss := by
      rintro loss
      simp [loss] at state
    simp only [dupAck, notLoss, if_false, inDisorder, reduceCtorEq, if_true, bind_returns] at rest
    obtain ⟨-, -, rest⟩ := rest
    exact ⟨_, frame, dupAckInDisorder_cases rest⟩
  cases state : s.tcb.congState with
  | caOpen => exact .inr (.inr ⟨.inl rfl, counted (.inl state) run⟩)
  | caDisorder => exact .inr (.inr ⟨.inr rfl, counted (.inr state) run⟩)
  | caCwr =>
    simp only [dupAck, countDupAck, leaveOpen, state, reduceCtorEq, if_false, bind_returns,
      some.injEq] at run
    obtain ⟨-, -, same⟩ := run
    exact .inr (.inl ⟨rfl, same.symm⟩)
  | caRecovery =>
    simp only [dupAck, countDupAck, leaveOpen, state, reduceCtorEq, if_false, if_true,
      bind_returns] at run
    obtain ⟨-, -, rest⟩ := run
    exact .inl ⟨.inr rfl, dupAckInRecovery_frame rest⟩
  | caLoss =>
    simp only [dupAck, state, if_true, some.injEq] at run
    exact .inl ⟨.inl rfl, run ▸ .refl ops s⟩

/-! ## Acknowledged data -/

/-- The count of duplicates after an ACK of new data, which clears it unless the ACK is
a duplicate too. -/
def ackCounted (isDupack : Bool) (s : Sender σ ρ) : Sender σ ρ :=
  { s with dupAckCount := if isDupack then s.dupAckCount else 0 }

/-- The way to `CA_OPEN` on an ACK at or above the recovery point. -/
def reopened (ack : SequenceNumber32) (s : Sender σ ρ) : Sender σ ρ :=
  (s.setCongState .caOpen).deactivateRecover ack

/-- What `ProcessAck` makes of an ACK of new data, by the congestion state. -/
inductive Acknowledges (ops : SenderOps σ ρ) (ack : SequenceNumber32) (isDupack : Bool)
    (s t : Sender σ ρ) : Prop
  | below (state : s.tcb.congState = .caRecovery ∨ s.tcb.congState = .caLoss)
      (frame : Frame ops (s.ackCounted isDupack) t)
  | inCwr (state : s.tcb.congState = .caCwr) (frame : Frame ops (s.ackCounted isDupack) t)
  | recovered (state : s.tcb.congState = .caRecovery) (above : ack.lt s.recover = false)
      (u : Sender σ ρ) (frame : Frame ops (({ s with dupAckCount := 0 }).reopened ack) u)
      (rest : Frame ops (u.exitRecovery ops) t)
  | afterLoss (state : s.tcb.congState = .caLoss) (above : ack.lt s.recover = false)
      (frame : Frame ops ((s.ackCounted isDupack).reopened ack) t)
  | ordered (state : s.tcb.congState = .caDisorder) (new : isDupack = false)
      (frame : Frame ops ((s.ackCounted isDupack).reopened ack) t)
  | stillDisordered (state : s.tcb.congState = .caDisorder) (dup : isDupack = true)
      (frame : Frame ops (s.deactivateRecover ack) t)
  | inOpen (state : s.tcb.congState = .caOpen)
      (frame : Frame ops ((s.ackCounted isDupack).deactivateRecover ack) t)

theorem Frame.deactivateRecover (h : Frame ops s t) (ack : SequenceNumber32) :
    Frame ops (s.deactivateRecover ack) (t.deactivateRecover ack) :=
  { h with recoverActive := by simp only [Sender.deactivateRecover, h.recoverActive, h.recover] }

theorem Frame.changeCongState (h : Frame ops s t) (congState : TcpCongState)
    (other : Quiet (.congestionStateSet congState)) :
    Frame ops (s.setCongState congState) (t.changeCongState ops congState) :=
  (h.trans (.congestion t (.congestionStateSet congState) other)).setCongState congState

theorem leaveRecovery_frame {isDupack : Bool} {u : Sender σ ρ} (segsAcked : BitVec 32)
    (counted : Frame ops (s.ackCounted isDupack) u) :
    Frame ops (({ s with dupAckCount := 0 } : Sender σ ρ).setCongState .caOpen)
      (u.leaveRecovery ops segsAcked) := by
  have first : Frame ops u { u with isFirstPartialAck := true } := { Frame.refl ops u with }
  have acked := first.trans (.congestion _ (.pktsAcked segsAcked u.tcb.lastRtt) trivial)
  have told := counted.trans (acked.trans (.congestion _ (.cwndEvent .completeCwr) trivial))
  exact { told.changeCongState .caOpen trivial with dupAckCount := rfl }

theorem leaveLoss_frame (segsAcked : BitVec 32) (s : Sender σ ρ) :
    Frame ops (s.setCongState .caOpen) (s.leaveLoss ops segsAcked) := by
  have first : Frame ops s { s with isFirstPartialAck := true } := { Frame.refl ops s with }
  have acked := first.trans (.congestion _ (.pktsAcked segsAcked s.tcb.lastRtt) trivial)
  exact acked.changeCongState .caOpen trivial

theorem leaveDisorder_frame (ops : SenderOps σ ρ) (a : Acked) (s : Sender σ ρ) :
    Frame ops (if a.isDupack then s else s.setCongState .caOpen) (s.leaveDisorder ops a) := by
  have acked : Frame ops s (if a.oldDupAckCount ≤ a.segsAcked then
      s.congestion ops (.pktsAcked (a.segsAcked - a.oldDupAckCount) s.tcb.lastRtt) else s) := by
    split
    · exact .congestion s _ (by trivial)
    · exact .refl ops s
  simp only [leaveDisorder]
  split
  · exact acked
  · exact acked.changeCongState .caOpen trivial

theorem fullAck_cases {a : Acked} {u : Sender σ ρ} (counted : Frame ops (s.ackCounted a.isDupack) u)
    (above : s.tcb.congState = .caRecovery ∨ s.tcb.congState = .caLoss →
      a.ack.lt s.recover = false) (other : s.tcb.congState ≠ .caCwr)
    (run : u.fullAck profile ops a = some t) : Acknowledges ops a.ack a.isDupack s t := by
  have state : u.tcb.congState = s.tcb.congState := counted.congState
  simp only [fullAck, state] at run
  cases found : s.tcb.congState with
  | caCwr => exact absurd found other
  | caRecovery =>
    simp only [found, bind_returns] at run
    obtain ⟨v, noted, rest⟩ := run
    have left := (leaveRecovery_frame (a.ack.sub a.oldHeadSequence / u.tcb.segmentSize)
      counted).deactivateRecover a.ack
    exact .recovered found (above (.inl found)) v (left.trans (.newAck noted))
      (.growWindow rest)
  | caLoss =>
    simp only [found] at run
    have left := (counted.setCongState .caOpen).trans
      (leaveLoss_frame (a.ack.sub u.recover / u.tcb.segmentSize) u)
    exact .afterLoss found (above (.inr found))
      ((left.deactivateRecover a.ack).trans (.growWindow run))
  | caDisorder =>
    simp only [found] at run
    have left := leaveDisorder_frame ops a u
    cases dup : a.isDupack with
    | true =>
      rw [dup] at counted left
      have both := counted.trans left
      exact .stillDisordered found rfl ((both.deactivateRecover a.ack).trans (.growWindow run))
    | false =>
      rw [dup] at counted left
      have both := (counted.setCongState .caOpen).trans left
      exact .ordered found rfl ((both.deactivateRecover a.ack).trans (.growWindow run))
  | caOpen =>
    simp only [found] at run
    have acked := counted.trans (.congestion u (.pktsAcked a.segsAcked u.tcb.lastRtt) trivial)
    exact .inOpen found ((acked.deactivateRecover a.ack).trans (.growWindow run))

theorem ackNewData_cases {a : Acked} {u : Sender σ ρ}
    (counted : Frame ops (s.ackCounted a.isDupack) u)
    (run : u.ackNewData profile ops a = some t) : Acknowledges ops a.ack a.isDupack s t := by
  have state : u.tcb.congState = s.tcb.congState := counted.congState
  have recover : u.recover = s.recover := counted.recover
  simp only [ackNewData, state, recover] at run
  split at run
  case isTrue inRecovery => exact .below (.inl inRecovery.2) (counted.trans (.partialAck run))
  case isFalse notPartial =>
    split at run
    case isTrue inLoss => exact .below (.inr inLoss.2) (counted.trans (.lossAck run))
    case isFalse notLoss =>
      split at run
      case isTrue cwr => exact .inCwr cwr (counted.trans (.cwrAck run))
      case isFalse other =>
        refine fullAck_cases counted ?_ other run
        rintro (inRecovery | inLoss)
        · simpa [inRecovery] using notPartial
        · simpa [inLoss] using notLoss

/-- `ProcessAck` after `DupAck`: an ACK of nothing new is no transition. -/
theorem processAcked_cases {ack oldHeadSequence : SequenceNumber32}
    {delivered oldDupAckCount : BitVec 32} {isDupack : Bool}
    (run : s.processAcked profile ops ack oldHeadSequence delivered oldDupAckCount isDupack =
      some t) :
    (ack = oldHeadSequence ∨ ack.gt oldHeadSequence = false) ∧ Frame ops s t ∨
      ack ≠ oldHeadSequence ∧ ack.gt oldHeadSequence = true ∧
        Acknowledges ops ack isDupack s t := by
  simp only [processAcked] at run
  split at run
  case isTrue same =>
    refine .inl ⟨.inl same, ?_⟩
    split at run
    · cases run
      exact .refl ops s
    · split at run
      · cases run
        exact { Frame.refl ops s with }
      · cases run
        exact .congestion s (.pktsAcked 1 s.tcb.lastRtt) trivial
  case isFalse other =>
    split at run
    case isTrue new =>
      refine .inr ⟨other, new, ?_⟩
      have counted : Frame ops (s.ackCounted isDupack)
          (s.countAcked ack oldHeadSequence delivered oldDupAckCount isDupack).2 :=
        { Frame.refl ops (s.ackCounted isDupack) with }
      exact ackNewData_cases counted run
    case isFalse old =>
      cases run
      exact .inl ⟨.inr (by simpa using old), .refl ops s⟩

theorem exitRecovery_kept (ops : SenderOps σ ρ) (s : Sender σ ρ) :
    Kept { s with trace.exits := (s.exitRecovery ops).trace.exits } (s.exitRecovery ops) := by
  exact { Kept.refl (s.exitRecovery ops) with }

theorem exitRecovery_exits (ops : SenderOps σ ρ) {e : RecoveryEntry σ}
    (entry : s.trace.entry = some e) :
    (s.exitRecovery ops).trace.exits =
      { entry := e, reinitialized := s.trace.reinitialized, before := s.tcb.toWindows
        between := (s.congestion ops .exitRecovery).tcb.toWindows
        after := ((s.congestion ops .exitRecovery).recovery ops .exitRecovery).tcb.toWindows } ::
        s.trace.exits := by
  have same : ((s.congestion ops .exitRecovery).recovery ops .exitRecovery).trace.entry = some e :=
    entry
  simp only [exitRecovery, same]
  rfl

/-! ## The rest of an event -/

/-- The same members, but for the highest ACK that was received. -/
def marked (highRxAckMark : SequenceNumber32) (s : Sender σ ρ) : Sender σ ρ :=
  { s with around.highRxAckMark := highRxAckMark }

theorem surround_frame (ops : SenderOps σ ρ) (around : Surroundings) (s : Sender σ ρ) :
    Frame ops (s.marked around.highRxAckMark) (s.surround around) :=
  { Frame.refl ops s with highRxAckMark := rfl }

theorem receivedData_frame (ops : SenderOps σ ρ) (a : Ack) (s : Sender σ ρ) :
    ∃ mark, Frame ops (s.marked mark) (s.receivedData a) := by
  unfold receivedData
  split
  · exact ⟨_, surround_frame ops _ s⟩
  · exact ⟨s.around.highRxAckMark, .refl ops s⟩

theorem Frame.marked (h : Frame ops s t) (mark : SequenceNumber32) :
    Frame ops (s.marked mark) (t.marked mark) :=
  { h with highRxAckMark := rfl }

theorem afterProcessAck_frame {a : Ack} {previousLost : Nat} {priorInFlight : BitVec 32}
    (run : s.afterProcessAck profile ops a previousLost priorInFlight = some t) :
    ∃ mark, Frame ops (s.marked mark) t := by
  simp only [afterProcessAck] at run
  have cleared : Frame ops s { s with tcb.isRetransDataAcked := false } := { Frame.refl ops s with }
  split at run
  · have told := cleared.trans (.congestion _ (.congControl a.currentDelivered
      (lostSince previousLost s.txBuffer.getLost) priorInFlight) trivial)
    obtain ⟨mark, data⟩ := receivedData_frame ops a _
    exact ⟨mark, ((told.marked mark).trans data).trans (.sendPendingData run)⟩
  · obtain ⟨mark, data⟩ := receivedData_frame ops a _
    exact ⟨mark, ((cleared.marked mark).trans data).trans (.sendPendingData run)⟩

/-- A stale ACK only brings data. -/
theorem untilProcessAck_stale {a : Ack}
    (run : s.untilProcessAck profile ops a = some (.inr t)) :
    ∃ mark, Frame ops (s.marked mark) t := by
  simp only [untilProcessAck, bind_eq_bind, bind_eq_some_iff] at run
  obtain ⟨-, -, -, -, ⟨bytesSacked, u⟩, read, rest⟩ := run
  split at rest
  case isTrue =>
    obtain rfl := Sum.inr.inj (some.inj rest)
    obtain ⟨mark, data⟩ := receivedData_frame ops a u
    exact ⟨mark, ((Frame.readOptions read).marked mark).trans data⟩
  case isFalse =>
    simp only [bind_eq_some_iff, Option.pure_def, some.injEq, reduceCtorEq,
      and_false, exists_false] at rest

/-- The three parts of `ReceivedAck`. -/
theorem receivedAck_cases {a : Ack} (run : s.receivedAck profile ops a = some t) :
    (∃ mark, Frame ops (s.marked mark) t) ∨
      ∃ call u mark, s.untilProcessAck profile ops a = some (.inl call) ∧
        call.sender.processAck profile ops a.header.ackNumber call.scoreboardUpdated
          a.currentDelivered call.oldHeadSequence = some u ∧ Frame ops (u.marked mark) t := by
  simp only [receivedAck, bind_eq_bind, bind_eq_some_iff] at run
  obtain ⟨before, until_, rest⟩ := run
  cases before with
  | inr u =>
    cases rest
    exact .inl (untilProcessAck_stale until_)
  | inl call =>
    simp only [bind_eq_some_iff] at rest
    obtain ⟨u, processed, after⟩ := rest
    obtain ⟨mark, frame⟩ := afterProcessAck_frame after
    exact .inr ⟨call, u, mark, until_, processed, frame⟩

/-- `ProcessAck`: `DupAck` on a duplicate, then what the ACK acknowledges. -/
theorem processAck_cases {ack oldHeadSequence : SequenceNumber32} {scoreboardUpdated : Bool}
    {delivered : BitVec 32}
    (run : s.processAck profile ops ack scoreboardUpdated delivered oldHeadSequence = some t) :
    ∃ u v, Frame ops s u ∧
      (s.isDupack ack scoreboardUpdated oldHeadSequence = false ∧ v = u ∨
        s.isDupack ack scoreboardUpdated oldHeadSequence = true ∧
          u.dupAck profile ops delivered = some v) ∧
      v.processAcked profile ops ack oldHeadSequence delivered s.dupAckCount
        (s.isDupack ack scoreboardUpdated oldHeadSequence) = some t := by
  have noted : Frame ops s { s with tcb.lastAckedSeq := ack } := { Frame.refl ops s with }
  simp only [processAck] at run
  cases dup : s.isDupack ack scoreboardUpdated oldHeadSequence with
  | false =>
    simp only [dup, Bool.false_eq_true, if_false, bind_eq_bind] at run
    exact ⟨_, _, noted, .inl ⟨rfl, rfl⟩, run⟩
  | true =>
    simp only [dup, if_true, bind_returns] at run
    obtain ⟨v, counted, rest⟩ := run
    exact ⟨_, v, noted, .inr ⟨rfl, counted⟩, rest⟩

theorem setSsThresh_kept {inFlight : BitVec 32}
    (run : s.setSsThresh profile ops inFlight = some t) :
    Kept s t := by
  simp only [setSsThresh, bind_returns, pure_returns] at run
  obtain ⟨⟨ssThresh, c⟩, -, rfl⟩ := run
  exact { Kept.refl s with }

/-- The members after everything in flight was given up. -/
def lost (s : Sender σ ρ) : Sender σ ρ :=
  { s with dupAckCount := 0, recover := s.tcb.highTxMark, recoverActive := true }

theorem bytesInFlight_lost (run : s.bytesInFlight profile = some t) : Frame ops s.lost t.lost := by
  simp only [bytesInFlight, bind_returns, pure_returns] at run
  obtain ⟨bytes, -, rfl⟩ := run
  exact { Frame.refl ops s.lost with }

theorem loseFlight_frame (run : s.loseFlight profile = some t) : Frame ops s.lost t := by
  simp only [loseFlight, bind_returns, pure_returns] at run
  obtain ⟨b, -, rfl⟩ := run
  exact { Frame.refl ops s.lost with }

theorem timeoutSsThresh_cases {inFlight : BitVec 32}
    (run : s.timeoutSsThresh profile ops inFlight = some t) :
    t = s ∨ s.setSsThresh profile ops inFlight = some t := by
  unfold timeoutSsThresh at run
  split at run
  · exact .inr run
  · simp only [bind_returns] at run
    obtain ⟨retransmitted, -, rest⟩ := run
    split at rest
    · exact .inl (some.inj rest).symm
    · exact .inr rest

/-- `ReTxTimeout` does nothing or leads to `CA_LOSS`. -/
theorem reTxTimeout_cases {turns : Nat} (run : s.reTxTimeout profile ops turns = some t) :
    Frame ops s t ∨
      ∃ u v inFlight, Frame ops s.lost u ∧ (v = u ∨ u.setSsThresh profile ops inFlight = some v) ∧
        Frame ops (v.setCongState .caLoss) t := by
  unfold reTxTimeout at run
  split at run
  case isTrue =>
    cases run
    exact .inl (.refl ops s)
  case isFalse =>
    split at run
    case isTrue =>
      cases run
      exact .inl { Frame.refl ops s with }
    case isFalse =>
      simp only [bind_returns] at run
      obtain ⟨u, counted, v, given, w, thresh, x, asserted, y, sent, final⟩ := run
      have flight : Frame ops s.lost v :=
        (bytesInFlight_lost counted).trans (loseFlight_frame given)
      refine .inr ⟨v, w, _, flight, timeoutSsThresh_cases thresh, ?_⟩
      have told : Frame ops w (w.congestion ops (.cwndEvent .loss)) := .congestion w _ (by trivial)
      have entered : Frame ops (w.setCongState .caLoss) (w.enterLoss ops) :=
        (told.changeCongState .caLoss trivial).trans (.write _ _ _)
      exact ((entered.trans (.assertInFlight asserted)).trans (.sendPendingData sent)).trans
        (.assertInFlight final)

end Ns3.TcpSocketBase.Sender
