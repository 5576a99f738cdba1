import Ns3.Internet.TcpCerl.Basic
import Ns3.Internet.TcpSocketBase.Sender.Transitions
import Ns3.Library.Run

/-!
# What a fast recovery is fed

A recovery algorithm is told how many bytes each ACK delivered: by `EnterRecovery` or
`DoRecovery` from `DupAck`, and by `DoRecovery` again when `ProcessAck` finds a partial ACK that
is worth a segment. An ACK may reach both calls, or none of them. The books of a recovery balance
exactly as long as each of its ACKs that delivers something reaches one.
-/

namespace Ns3

/-- The delivered bytes that a call passes on. -/
def RecoveryCall.deliveredBytes : RecoveryCall → Nat
  | .enterRecovery _ _ deliveredBytes => deliveredBytes.toNat
  | .doRecovery deliveredBytes => deliveredBytes.toNat
  | .exitRecovery | .updateBytesSent _ => 0

/-- The same algorithm, with a count of the delivered bytes that it was called with. -/
def TcpRecoveryOps.counting {ρ : Type} (ops : TcpRecoveryOps ρ) : TcpRecoveryOps (ρ × Nat) where
  call c tcb s :=
    let r := ops.call c tcb s.1
    (r.1, r.2, s.2 + c.deliveredBytes)

namespace TcpSocketBase

/-- The same two algorithms, with the count. -/
def SenderOps.counting {σ ρ : Type} (ops : SenderOps σ ρ) : SenderOps σ (ρ × Nat) where
  congestionControl := ops.congestionControl
  recoveryOps := ops.recoveryOps.counting

namespace Sender

variable {σ ρ : Type}

section Books

variable (profile : BuildProfile) (ops : SenderOps σ ρ)

/-- The state of a `ProcessAck` call after `DupAck`. -/
def ProcessAckCall.afterDupAck (a : Ack) (call : ProcessAckCall σ ρ) : Option (Sender σ ρ) :=
  let s := { call.sender with tcb.lastAckedSeq := a.header.ackNumber }
  if s.isDupack a.header.ackNumber call.scoreboardUpdated call.oldHeadSequence then
    s.dupAck profile ops a.currentDelivered
  else some s

/-- The call of `ProcessAck` for an ACK of a fast recovery: one that it was in before, or that
`DupAck` enters. -/
def recoveryAck (a : Ack) (s : Sender σ ρ) : Option (ProcessAckCall σ ρ) :=
  match s.untilProcessAck profile ops a with
  | some (.inl call) =>
    if (call.afterDupAck profile ops a).any (·.tcb.congState = .caRecovery) then some call
    else none
  | _ => none

/-- All that the recovery algorithm was fed so far. -/
def fed (s : Sender σ (ρ × Nat)) : Nat := s.recoveryOps.2

/-- A socket and the books of its last fast recovery: the bytes that the algorithm was fed in it,
and those that its ACKs delivered. -/
structure Booked (σ ρ : Type) where
  sender : Sender σ (ρ × Nat)
  fed : Nat := 0
  delivered : Nat := 0

namespace Booked

/-- The socket after an event that is no ACK of a fast recovery. -/
def idle (t : Sender σ (ρ × Nat)) (w : Booked σ ρ) : Booked σ ρ :=
  { w with sender := t, fed := w.fed + (t.fed - w.sender.fed) }

/-- The books of the recovery that an ACK belongs to. An ACK that enters it opens them. -/
def opened (call : ProcessAckCall σ (ρ × Nat)) (w : Booked σ ρ) : Booked σ ρ :=
  if call.sender.tcb.congState = .caRecovery then w else { w with fed := 0, delivered := 0 }

/-- The socket after an ACK of a fast recovery. -/
def acked (a : Ack) (t : Sender σ (ρ × Nat)) (w : Booked σ ρ) : Booked σ ρ where
  sender := t
  fed := w.fed + (t.fed - w.sender.fed)
  delivered := w.delivered + a.currentDelivered.toNat

/-- One event. What other ACKs feed does not concern a fast recovery. -/
def step (w : Booked σ ρ) (e : Event) : Option (Booked σ ρ) := do
  let t ← w.sender.step profile ops.counting e
  return match e with
    | .receivedAck a =>
      match w.sender.recoveryAck profile ops.counting a with
      | some call => (w.opened call).acked a t
      | none => { w with sender := t }
    | _ => w.idle t

/-- Each delivered byte was fed once. -/
def Balanced (w : Booked σ ρ) : Prop := w.fed = w.delivered

end Booked

end Books

section Condition

/-- The recovery point that an ACK is compared with: the one of the recovery that it finds, or
that it enters. -/
def ProcessAckCall.recoveryPoint (call : ProcessAckCall σ ρ) : SequenceNumber32 :=
  if call.sender.tcb.congState = .caRecovery then call.sender.recover
  else call.sender.tcb.highTxMark

/-- The new data is worth a segment, with what earlier ACKs have left over. -/
def ProcessAckCall.worthSegment (ack : SequenceNumber32) (call : ProcessAckCall σ ρ) : Bool :=
  let bytes := ack.sub call.oldHeadSequence
  call.sender.tcb.segmentSize ≤ bytes ||
    call.sender.tcb.segmentSize ≤
      call.sender.bytesAckedNotProcessed + bytes % call.sender.tcb.segmentSize

/-- A partial ACK that is worth a segment. -/
def ProcessAckCall.isPartial (ack : SequenceNumber32) (call : ProcessAckCall σ ρ) : Bool :=
  ack.gt call.oldHeadSequence && ack.lt call.recoveryPoint && call.worthSegment ack

/-- A duplicate ACK. -/
def ProcessAckCall.isDuplicate (ack : SequenceNumber32) (call : ProcessAckCall σ ρ) : Bool :=
  call.sender.isDupack ack call.scoreboardUpdated call.oldHeadSequence

/-- The ACK delivers nothing, or there is an algorithm to feed and the ACK is either a duplicate
or a partial ACK that is worth a segment. -/
def FedOnce (ops : SenderOps σ ρ) (a : Ack) (call : ProcessAckCall σ (ρ × Nat)) : Prop :=
  a.currentDelivered = 0 ∨ ops.congestionControl.hasCongControl = false ∧
    call.isDuplicate a.header.ackNumber ≠ call.isPartial a.header.ackNumber
  deriving Decidable

/-- An ACK of a fast recovery that is processed to the end is fed once. -/
def FeedsOnce (profile : BuildProfile) (ops : SenderOps σ ρ) (w : Booked σ ρ) : Event → Prop
  | .receivedAck a => (w.sender.receivedAck profile ops.counting a).isSome →
      ∀ call, w.sender.recoveryAck profile ops.counting a = some call → FedOnce ops a call
  | _ => True

end Condition

/-! ## What each function feeds -/

variable {profile : BuildProfile} {ops : SenderOps σ ρ} {s t u : Sender σ (ρ × Nat)}

/-- The algorithm is fed so many bytes, and the count of acknowledged segments is left alone. -/
structure Feeds (bytes : Nat) (s t : Sender σ (ρ × Nat)) : Prop where
  fed : t.fed = s.fed + bytes
  segmentSize : t.tcb.segmentSize = s.tcb.segmentSize
  bytesAckedNotProcessed : t.bytesAckedNotProcessed = s.bytesAckedNotProcessed

namespace Feeds

theorem refl (s : Sender σ (ρ × Nat)) : Feeds 0 s s := ⟨rfl, rfl, rfl⟩

theorem trans {m n : Nat} (first : Feeds m s t) (second : Feeds n t u) : Feeds (m + n) s u where
  fed := by rw [second.fed, first.fed, Nat.add_assoc]
  segmentSize := second.segmentSize.trans first.segmentSize
  bytesAckedNotProcessed := second.bytesAckedNotProcessed.trans first.bytesAckedNotProcessed

theorem then_ {m : Nat} (first : Feeds m s t) (second : Feeds 0 t u) : Feeds m s u :=
  first.trans second

theorem after {m : Nat} (second : Feeds m t u) (first : Feeds 0 s t) : Feeds m s u := by
  have both := first.trans second
  rwa [Nat.zero_add] at both

theorem closed (ops : SenderOps σ ρ) : Closed ops.counting (Feeds 0) where
  untouched h := ⟨by rw [Sender.fed, h.recoveryOps]; rfl, h.segmentSize, h.bytesAckedNotProcessed⟩
  trans := then_
  congestion _ _ _ := ⟨rfl, rfl, rfl⟩
  bytesSent _ _ := ⟨rfl, rfl, rfl⟩
  write _ _ _ := ⟨rfl, rfl, rfl⟩

end Feeds

/-- What one call feeds: nothing, if the congestion control replaces the algorithm. -/
def fedByCall (ops : SenderOps σ ρ) (deliveredBytes : BitVec 32) : Nat :=
  if ops.congestionControl.hasCongControl then 0 else deliveredBytes.toNat

section DupAck

variable {deliveredBytes : BitVec 32}

theorem invokeRecovery_feeds (ops : SenderOps σ ρ) (deliveredBytes : BitVec 32)
    (s : Sender σ (ρ × Nat)) :
    Feeds (fedByCall ops deliveredBytes) s (s.invokeRecovery ops.counting deliveredBytes) := by
  unfold invokeRecovery fedByCall SenderOps.counting
  split
  · exact .refl s
  · exact ⟨rfl, rfl, rfl⟩

theorem markHead_feeds (run : s.markHead profile = some t) : Feeds 0 s t := by
  obtain ⟨b, rfl⟩ := markHead_eq run
  exact ⟨rfl, rfl, rfl⟩

theorem setSsThresh_feeds {inFlight : BitVec 32}
    (run : s.setSsThresh profile ops.counting inFlight = some t) : Feeds 0 s t := by
  simp only [setSsThresh, bind_returns, pure_returns] at run
  obtain ⟨⟨ssThresh, c⟩, -, rfl⟩ := run
  exact ⟨rfl, rfl, rfl⟩

theorem enterRecovery_feeds (run : s.enterRecovery profile ops.counting deliveredBytes = some t) :
    Feeds (fedByCall ops deliveredBytes) s t := by
  simp only [enterRecovery, beginRecovery, bind_returns, pure_returns] at run
  obtain ⟨began, ⟨-, -, u, marked, v, counted, w, thresh, rfl⟩, sent⟩ := run
  have head : Feeds 0 s u := markHead_feeds marked
  have told : Feeds 0 u v := (Feeds.closed ops).bytesInFlight counted |>.after ⟨rfl, rfl, rfl⟩
  have before := (head.then_ told).then_ (setSsThresh_feeds thresh)
  have called := (invokeRecovery_feeds ops deliveredBytes w).after before
  exact called.then_ ((Feeds.closed ops).doRetransmit sent)

theorem addRenoSack_feeds {wanted : Bool} (run : s.addRenoSack profile wanted = some t) :
    Feeds 0 s t := by
  unfold addRenoSack at run
  split at run
  · obtain ⟨b, -, rfl⟩ := Option.map_eq_some_iff.mp run
    exact ⟨rfl, rfl, rfl⟩
  · cases run
    exact .refl s

theorem dupAckInRecovery_feeds
    (run : s.dupAckInRecovery profile ops.counting deliveredBytes = some t) :
    Feeds (fedByCall ops deliveredBytes) s t := by
  simp only [dupAckInRecovery, bind_returns, pure_returns] at run
  obtain ⟨u, sacked, rfl⟩ := run
  refine Feeds.after ?_ (addRenoSack_feeds sacked)
  unfold fedByCall SenderOps.counting
  split
  · exact .refl u
  · exact ⟨rfl, rfl, rfl⟩

theorem countDupAck_feeds (ops : SenderOps σ ρ) (s : Sender σ (ρ × Nat)) :
    Feeds 0 s (s.countDupAck.leaveOpen ops.counting) := by
  unfold countDupAck leaveOpen
  split <;> split <;> exact ⟨rfl, rfl, rfl⟩

theorem countDupAck_highTxMark (ops : SenderOps σ ρ) (s : Sender σ (ρ × Nat)) :
    (s.countDupAck.leaveOpen ops.counting).tcb.highTxMark = s.tcb.highTxMark := by
  unfold countDupAck leaveOpen
  split <;> split <;> rfl

/-- A duplicate ACK that enters a recovery. -/
theorem dupAck_enters_feeds (run : s.dupAck profile ops.counting deliveredBytes = some t)
    (recovery : t.tcb.congState = .caRecovery)
    (state : s.tcb.congState = .caOpen ∨ s.tcb.congState = .caDisorder) :
    Feeds (fedByCall ops deliveredBytes) s t ∧ t.recover = s.tcb.highTxMark := by
  have frame : Frame ops.counting s.disordered (s.countDupAck.leaveOpen ops.counting) :=
    leaveOpen_frame state
  have inDisorder : (s.countDupAck.leaveOpen ops.counting).tcb.congState = .caDisorder :=
    frame.congState
  have notLoss : ¬ s.tcb.congState = .caLoss := by
    intro loss
    simp [loss] at state
  simp only [dupAck, notLoss, if_false, inDisorder, reduceCtorEq, if_true, bind_returns] at run
  obtain ⟨-, -, rest⟩ := run
  rcases dupAckInDisorder_cases rest with entered | ⟨stays, -⟩
  · have point := (enterRecovery_kept entered).recover
    exact ⟨(enterRecovery_feeds entered).after (countDupAck_feeds ops s),
      point.trans (countDupAck_highTxMark ops s)⟩
  · rw [stays.congState, inDisorder] at recovery
    exact absurd recovery (by decide)

/-- A duplicate ACK in a recovery, or one that enters it, is fed by one call. -/
theorem dupAck_feeds (run : s.dupAck profile ops.counting deliveredBytes = some t)
    (recovery : t.tcb.congState = .caRecovery) :
    Feeds (fedByCall ops deliveredBytes) s t ∧ s.tcb.congState ≠ .caCwr ∧
      t.recover = if s.tcb.congState = .caRecovery then s.recover else s.tcb.highTxMark := by
  cases state : s.tcb.congState with
  | caOpen =>
    obtain ⟨feeds, point⟩ := dupAck_enters_feeds run recovery (.inl state)
    exact ⟨feeds, by decide, point⟩
  | caDisorder =>
    obtain ⟨feeds, point⟩ := dupAck_enters_feeds run recovery (.inr state)
    exact ⟨feeds, by decide, point⟩
  | caCwr =>
    simp only [dupAck, countDupAck, leaveOpen, state, reduceCtorEq, if_false, bind_returns,
      Option.some.injEq] at run
    obtain ⟨-, -, rfl⟩ := run
    exact absurd (state.symm.trans recovery) (by decide)
  | caRecovery =>
    simp only [dupAck, countDupAck, leaveOpen, state, reduceCtorEq, if_false, if_true,
      bind_returns] at run
    obtain ⟨-, -, rest⟩ := run
    exact ⟨dupAckInRecovery_feeds rest, by decide, (dupAckInRecovery_frame rest).recover⟩
  | caLoss =>
    simp only [dupAck, state, if_true, Option.some.injEq] at run
    subst run
    exact absurd (state.symm.trans recovery) (by decide)

end DupAck

section NewData

variable {a : Acked}

theorem recoverAcked_feeds (ops : SenderOps σ ρ) (a : Acked) (s : Sender σ (ρ × Nat)) :
    Feeds (if 1 ≤ a.segsAcked then fedByCall ops a.currentDelivered else 0) s
      (s.recoverAcked ops.counting a) := by
  unfold recoverAcked fedByCall SenderOps.counting
  cases ops.congestionControl.hasCongControl with
  | true => exact ⟨by rw [if_pos rfl, ite_self]; rfl, rfl, rfl⟩
  | false =>
    by_cases worth : 1 ≤ a.segsAcked
    · simp only [worth, decide_true, Bool.not_false, Bool.and_self, if_true]
      exact ⟨rfl, rfl, rfl⟩
    · simp only [worth, decide_false, Bool.and_false, Bool.false_eq_true, if_false]
      exact .refl s

/-- A partial ACK is fed by one call if it is worth a segment. -/
theorem partialAck_feeds (run : s.partialAck profile ops.counting a = some t) :
    Feeds (if 1 ≤ a.segsAcked then fedByCall ops a.currentDelivered else 0) s t := by
  simp only [partialAck, bind_returns, pure_returns] at run
  obtain ⟨u, sent, v, noted, rfl⟩ := run
  have marked : Feeds 0 s
      (if s.sackEnabled then s else { s with txBuffer := s.txBuffer.markHeadAsLost }) := by
    split
    · exact .refl s
    · exact ⟨rfl, rfl, rfl⟩
  have called := (recoverAcked_feeds ops a _).after marked
  have transmitted := called.then_ ((Feeds.closed ops).retransmitPartial sent)
  have told : Feeds 0 u (u.congestion ops.counting (.pktsAcked 1 u.tcb.lastRtt)) := ⟨rfl, rfl, rfl⟩
  have acked := (transmitted.then_ told).then_ ((Feeds.closed ops).newAck noted)
  exact acked.then_ ⟨rfl, rfl, rfl⟩

theorem fullAck_feeds (state : s.tcb.congState = .caRecovery)
    (run : s.fullAck profile ops.counting a = some t) : Feeds 0 s t := by
  simp only [fullAck, state, bind_returns] at run
  obtain ⟨u, noted, rest⟩ := run
  have left : Feeds 0 s u := ((Feeds.closed ops).newAck noted).after ⟨rfl, rfl, rfl⟩
  have ended : Feeds 0 u (u.exitRecovery ops.counting) := ⟨rfl, rfl, rfl⟩
  exact (left.then_ ended).then_ ((Feeds.closed ops).growWindow rest)

theorem sub_toNat_of_gt {x y : SequenceNumber32} (new : x.gt y = true) :
    (x.sub y).toNat ≤ 2 ^ 31 := by
  have half := SequenceNumber.halfMaxValue_32
  rw [SequenceNumber.sub_eq, BitVec.toNat_sub]
  rcases SequenceNumber.gt_eq_true.mp new with ⟨less, near⟩ | ⟨less, far⟩
  · rw [BitVec.toNat_sub, half] at near
    omega
  · rw [BitVec.toNat_sub, half] at far
    omega

/-- The segments that an ACK is worth: one at least, if it covers a segment or completes one. -/
theorem countAcked_worth {ack oldHeadSequence : SequenceNumber32}
    (delivered oldDupAckCount : BitVec 32) (isDupack : Bool) (s : Sender σ (ρ × Nat))
    (new : ack.gt oldHeadSequence = true) :
    1 ≤ (s.countAcked ack oldHeadSequence delivered oldDupAckCount isDupack).1.segsAcked ↔
      s.tcb.segmentSize ≤ ack.sub oldHeadSequence ∨
        s.tcb.segmentSize ≤
          s.bytesAckedNotProcessed + ack.sub oldHeadSequence % s.tcb.segmentSize := by
  have span := sub_toNat_of_gt new
  simp only [countAcked]
  generalize ack.sub oldHeadSequence = bytes at span ⊢
  generalize s.bytesAckedNotProcessed + bytes % s.tcb.segmentSize = rest
  generalize s.tcb.segmentSize = size
  have whole : (bytes / size).toNat = bytes.toNat / size.toNat := BitVec.toNat_udiv
  have most : bytes.toNat / size.toNat ≤ bytes.toNat := Nat.div_le_self _ _
  by_cases completes : size ≤ rest
  · rw [if_pos completes, BitVec.le_def, BitVec.toNat_add, whole]
    have one : (1 : BitVec 32).toNat = 1 := rfl
    exact ⟨fun _ => .inr completes, fun _ => by omega⟩
  · have nothing : bytes / size + 0 = bytes / size := BitVec.add_zero _
    rw [if_neg completes, nothing, BitVec.le_def, BitVec.le_def, whole]
    have pos : 0 < size.toNat := by
      rw [BitVec.le_def] at completes
      omega
    have covers : 1 ≤ bytes.toNat / size.toNat ↔ size.toNat ≤ bytes.toNat := by
      rw [Nat.le_div_iff_mul_le pos, Nat.one_mul]
    exact covers.trans (or_iff_left completes).symm

end NewData

section ReceivedAck

variable {a : Ack} {call : ProcessAckCall σ (ρ × Nat)}

theorem leaveCwr_feeds (ops : SenderOps σ ρ) (ack : SequenceNumber32) (s : Sender σ (ρ × Nat)) :
    Feeds 0 s (s.leaveCwr ops.counting ack) := by
  unfold leaveCwr
  split
  · exact .refl s
  · split <;> exact ⟨rfl, rfl, rfl⟩

theorem receiveEcho_feeds {h : TcpHeader} {oldHeadSequence : SequenceNumber32}
    {delivered : BitVec 32}
    (run : s.receiveEcho profile ops.counting h oldHeadSequence delivered = some t)
    (other : t.tcb.congState ≠ .caCwr) : Feeds 0 s t := by
  simp only [receiveEcho] at run
  split at run
  · split at run
    · split at run
      · cases run
        exact ⟨rfl, rfl, rfl⟩
      · exact absurd (enterCwr_kept run).congState other
    · cases run
      exact .refl s
  · split at run
    · cases run
      exact ⟨rfl, rfl, rfl⟩
    · cases run
      exact .refl s

/-- Before `ProcessAck` only an entry into `CA_CWR` feeds anything. -/
theorem untilProcessAck_feeds
    (run : s.untilProcessAck profile ops.counting a = some (.inl call))
    (other : call.sender.tcb.congState ≠ .caCwr) : Feeds 0 s call.sender := by
  simp only [untilProcessAck, bind_returns] at run
  obtain ⟨-, -, -, -, ⟨bytesSacked, u⟩, read, rest⟩ := run
  obtain ⟨b, rfl, -⟩ := readOptions_eq read
  split at rest
  case isTrue => cases rest
  case isFalse =>
    simp only [discardAcked, bind_returns, pure_returns, Sum.inl.injEq] at rest
    obtain ⟨v, ⟨b', -, acked⟩, w, echo, x, counted, rfl⟩ := rest
    have discarded : Feeds 0 s v := by
      rw [← acked]
      exact ⟨rfl, rfl, rfl⟩
    have flight : Frame ops.counting w x := .bytesInFlight counted
    have echoed := receiveEcho_feeds echo fun cwr => other (flight.congState.trans cwr)
    have left := discarded.then_ (leaveCwr_feeds ops a.header.ackNumber v)
    exact (left.then_ echoed).then_ ((Feeds.closed ops).bytesInFlight counted)

/-- After `DupAck`, a partial ACK that is worth a segment is fed by one call. -/
theorem processAcked_fed {delivered oldDupAckCount : BitVec 32} {isDupack : Bool}
    {ack oldHeadSequence : SequenceNumber32} (recovery : s.tcb.congState = .caRecovery)
    (run : s.processAcked profile ops.counting ack oldHeadSequence delivered oldDupAckCount
      isDupack = some t) :
    t.fed = s.fed + if ack.gt oldHeadSequence ∧ ack.lt s.recover ∧
        (s.tcb.segmentSize ≤ ack.sub oldHeadSequence ∨ s.tcb.segmentSize ≤
          s.bytesAckedNotProcessed + ack.sub oldHeadSequence % s.tcb.segmentSize)
      then fedByCall ops delivered else 0 := by
  unfold processAcked at run
  split at run
  case isTrue same =>
    subst same
    rw [SequenceNumber.gt_self, if_neg (by simp), Nat.add_zero]
    split at run
    · cases run
      rfl
    · split at run
      · cases run
        rfl
      · cases run
        rfl
  case isFalse =>
    split at run
    case isTrue new =>
      have worth := countAcked_worth delivered oldDupAckCount isDupack s new
      simp only [ackNewData] at run
      split at run
      case isTrue below =>
        have feeds := partialAck_feeds run
        have notAbove : ack.lt s.recover = true := below.1
        rw [feeds.fed]
        simp only [worth, new, notAbove, true_and]
        rfl
      case isFalse above =>
        have notBelow : ack.lt s.recover = false := by
          cases below : ack.lt s.recover with
          | true => exact absurd ⟨below, recovery⟩ above
          | false => rfl
        have found : (s.countAcked ack oldHeadSequence delivered oldDupAckCount
          isDupack).2.tcb.congState = .caRecovery := recovery
        simp only [found, reduceCtorEq, and_false, if_false] at run
        have feeds := fullAck_feeds found run
        rw [feeds.fed, notBelow, if_neg (by simp)]
        rfl
    case isFalse old =>
      cases run
      rw [if_neg (fun both => old both.1)]
      rfl

theorem afterProcessAck_feeds {previousLost : Nat} {priorInFlight : BitVec 32}
    (run : s.afterProcessAck profile ops.counting a previousLost priorInFlight = some t) :
    Feeds 0 s t := by
  refine ((Feeds.closed ops).sendPendingData run).after ?_
  unfold receivedData
  split <;> split <;> exact ⟨rfl, rfl, rfl⟩

/-- What `DupAck` feeds in a recovery. -/
theorem afterDupAck_feeds (run : call.afterDupAck profile ops.counting a = some t)
    (recovery : t.tcb.congState = .caRecovery) :
    Feeds (if call.isDuplicate a.header.ackNumber then fedByCall ops a.currentDelivered else 0)
        call.sender t ∧
      call.sender.tcb.congState ≠ .caCwr ∧ t.recover = call.recoveryPoint := by
  change (if call.isDuplicate a.header.ackNumber then _ else _) = _ at run
  split at run
  · next duplicate =>
    obtain ⟨feeds, other, point⟩ := dupAck_feeds run recovery
    rw [if_pos duplicate]
    exact ⟨feeds.after ⟨rfl, rfl, rfl⟩, other, point⟩
  · next new =>
    cases run
    have found : call.sender.tcb.congState = .caRecovery := recovery
    rw [if_neg new, ProcessAckCall.recoveryPoint, if_pos found, found]
    exact ⟨⟨rfl, rfl, rfl⟩, by decide, rfl⟩

/-- `ProcessAck` is `DupAck` on a duplicate, and then what the ACK acknowledges. -/
theorem processAck_eq (a : Ack) (call : ProcessAckCall σ (ρ × Nat)) :
    call.sender.processAck profile ops.counting a.header.ackNumber call.scoreboardUpdated
        a.currentDelivered call.oldHeadSequence =
      (call.afterDupAck profile ops.counting a).bind fun s =>
        s.processAcked profile ops.counting a.header.ackNumber call.oldHeadSequence
          a.currentDelivered call.sender.dupAckCount (call.isDuplicate a.header.ackNumber) := by
  change (if call.isDuplicate a.header.ackNumber = true then _ else _) =
    Option.bind (if call.isDuplicate a.header.ackNumber = true then _ else _) _
  split <;> rfl

/-- The two calls that an ACK of a recovery may reach. -/
theorem receivedAck_fed (run : s.receivedAck profile ops.counting a = some t)
    (found : s.recoveryAck profile ops.counting a = some call) :
    t.fed = s.fed +
      (if call.isDuplicate a.header.ackNumber then fedByCall ops a.currentDelivered else 0) +
      if call.isPartial a.header.ackNumber then fedByCall ops a.currentDelivered else 0 := by
  simp only [receivedAck, recoveryAck, Option.bind_eq_bind, Option.bind_eq_some_iff] at run found
  obtain ⟨before, until_, rest⟩ := run
  rw [until_] at found
  cases before with
  | inr _ => cases found
  | inl c =>
    simp only [Option.bind_eq_some_iff] at rest
    obtain ⟨u, processed, after⟩ := rest
    simp only at found
    split at found
    case isFalse => cases found
    case isTrue inRecovery =>
      cases found
      obtain ⟨v, counted, state⟩ := (Option.any_eq_true _ _).mp inRecovery
      have recovery : v.tcb.congState = .caRecovery := of_decide_eq_true state
      obtain ⟨duplicate, other, point⟩ := afterDupAck_feeds counted recovery
      rw [processAck_eq, counted] at processed
      have acked := processAcked_fed recovery processed
      rw [(afterProcessAck_feeds after).fed, Nat.add_zero, acked, duplicate.fed,
        (untilProcessAck_feeds until_ other).fed, Nat.add_zero, duplicate.segmentSize,
        duplicate.bytesAckedNotProcessed, point]
      congr 2
      unfold ProcessAckCall.isPartial ProcessAckCall.worthSegment
      simp [and_assoc]

end ReceivedAck

section Events

theorem assertInFlight_feeds (ops : SenderOps σ ρ) {bound : BitVec 32}
    (run : s.assertInFlight profile bound = some t) : Feeds 0 s t := by
  unfold assertInFlight at run
  split at run
  · simp only [bind_returns, pure_returns] at run
    obtain ⟨u, counted, -, -, rfl⟩ := run
    exact (Feeds.closed ops).bytesInFlight counted
  · cases run
    exact .refl s

/-- A timeout feeds nothing. -/
theorem reTxTimeout_feeds {turns : Nat}
    (run : s.reTxTimeout profile ops.counting turns = some t) : Feeds 0 s t := by
  unfold reTxTimeout at run
  split at run
  case isTrue =>
    cases run
    exact .refl s
  case isFalse =>
    split at run
    case isTrue =>
      cases run
      exact ⟨rfl, rfl, rfl⟩
    case isFalse =>
      simp only [loseFlight, bind_returns, pure_returns] at run
      obtain ⟨u, counted, v, ⟨b, -, given⟩, w, thresh, x, asserted, y, sent, final⟩ := run
      have lost : Feeds 0 u v := by
        rw [← given]
        exact ⟨rfl, rfl, rfl⟩
      have threshold : Feeds 0 v w := by
        rcases timeoutSsThresh_cases thresh with rfl | set_
        · exact .refl w
        · exact setSsThresh_feeds set_
      have entered : Feeds 0 w (w.enterLoss ops.counting) := ⟨rfl, rfl, rfl⟩
      have before := ((Feeds.closed ops).bytesInFlight counted).then_ (lost.then_ threshold)
      have inLoss := (before.then_ entered).then_ (assertInFlight_feeds ops asserted)
      exact (inLoss.then_ ((Feeds.closed ops).sendPendingData sent)).then_
        (assertInFlight_feeds ops final)

theorem step_feeds {e : Event} (run : s.step profile ops.counting e = some t)
    (other : ∀ a, e ≠ .receivedAck a) : Feeds 0 s t := by
  cases e with
  | receivedAck a => exact absurd rfl (other a)
  | reTxTimeout turns => exact reTxTimeout_feeds run
  | send p => exact (Feeds.closed ops).send run
  | sendPendingData turns => exact (Feeds.closed ops).sendPendingData run
  | receivedSyn h =>
    cases run
    exact ⟨rfl, rfl, rfl⟩
  | surround around =>
    cases run
    exact ⟨rfl, rfl, rfl⟩

end Events

/-! ## The books of a run -/

namespace Booked

variable {w w' : Booked σ ρ}

theorem balanced_opened (balanced : w.Balanced) (call : ProcessAckCall σ (ρ × Nat)) :
    (w.opened call).Balanced := by
  unfold opened
  split
  · exact balanced
  · rfl

theorem opened_sender (call : ProcessAckCall σ (ρ × Nat)) (w : Booked σ ρ) :
    (w.opened call).sender = w.sender := by
  unfold opened
  split <;> rfl

/-- Two calls or none feed what one call feeds only if that is nothing. -/
theorem fedOnce_iff {a : Ack} {call : ProcessAckCall σ (ρ × Nat)} :
    (if call.isDuplicate a.header.ackNumber then fedByCall ops a.currentDelivered else 0) +
        (if call.isPartial a.header.ackNumber then fedByCall ops a.currentDelivered else 0) =
      a.currentDelivered.toNat ↔ FedOnce ops a call := by
  have zero : a.currentDelivered = 0 ↔ a.currentDelivered.toNat = 0 := BitVec.toNat_inj.symm
  unfold FedOnce fedByCall
  rw [zero]
  cases ops.congestionControl.hasCongControl <;> cases call.isDuplicate a.header.ackNumber <;>
    cases call.isPartial a.header.ackNumber <;> simp <;> omega

theorem acked_balanced_iff {a : Ack} {call : ProcessAckCall σ (ρ × Nat)} (balanced : w.Balanced)
    (run : w.sender.receivedAck profile ops.counting a = some t)
    (found : w.sender.recoveryAck profile ops.counting a = some call) :
    ((w.opened call).acked a t).Balanced ↔ FedOnce ops a call := by
  have before : (w.opened call).fed = (w.opened call).delivered := balanced_opened balanced call
  have fed := receivedAck_fed run found
  rw [← fedOnce_iff, Balanced, acked, opened_sender, before]
  simp only
  omega

/-- An ACK of a recovery is booked, and nothing else changes the books. -/
theorem step_cases {e : Event} (run : w.step profile ops e = some w') :
    (∃ a call t, e = .receivedAck a ∧ w.sender.receivedAck profile ops.counting a = some t ∧
        w.sender.recoveryAck profile ops.counting a = some call ∧
        w' = (w.opened call).acked a t) ∨
      ∃ t, w' = { w with sender := t } := by
  simp only [step, bind_returns, pure_returns] at run
  obtain ⟨t, returns, booked⟩ := run
  by_cases ack : ∃ a, e = .receivedAck a
  · obtain ⟨a, rfl⟩ := ack
    simp only at booked
    cases found : w.sender.recoveryAck profile ops.counting a with
    | none =>
      rw [found] at booked
      exact .inr ⟨t, booked.symm⟩
    | some call =>
      rw [found] at booked
      exact .inl ⟨a, call, t, rfl, returns, found, booked.symm⟩
  · have quiet := step_feeds returns fun a same => ack ⟨a, same⟩
    have nothing : w.idle t = { w with sender := t } := by
      rw [idle, quiet.fed, Nat.add_zero, Nat.sub_self, Nat.add_zero]
    cases e with
    | receivedAck a => exact absurd ⟨a, rfl⟩ ack
    | _ => exact .inr ⟨t, booked.symm.trans nothing⟩

/-- In every run the books of each fast recovery balance, after each of its ACKs, exactly as
long as each ACK is fed once. -/
theorem balanced_iff (profile : BuildProfile) (ops : SenderOps σ ρ) (s : Sender σ (ρ × Nat))
    (events : List Event) :
    Run.Always (step profile ops) Balanced { sender := s } events ↔
      Run.Meets (step profile ops) (FeedsOnce profile ops) { sender := s } events := by
  refine Run.always_iff_meets (I := Balanced) rfl (fun w balanced => balanced) ?_ ?_
  · intro w e w' balanced once run
    rcases step_cases run with ⟨a, call, t, rfl, received, found, rfl⟩ | ⟨t, rfl⟩
    · have condition := once (by rw [received]; rfl) call found
      exact (acked_balanced_iff balanced received found).mpr condition
    · exact balanced
  · intro w e balanced next
    cases e with
    | receivedAck a =>
      intro returns call found
      obtain ⟨t, received⟩ := Option.isSome_iff_exists.mp returns
      refine (acked_balanced_iff balanced received found).mp (next _ ?_)
      have stepped : w.sender.step profile ops.counting (.receivedAck a) = some t := received
      simp [step, stepped, found]
    | _ => trivial

/-! ## A run with two losses -/

/-- TCP CERL with proportional rate reduction, and a window of fifteen segments of two bytes. -/
def lossy : Sender (TcpCerl TcpCerl.Delays) (PrrState × Nat) where
  congestionControl := { statistics := {} }
  recoveryOps := ({}, 0)
  txBuffer := TcpTxBuffer.start (.ofNat 1) 1000 3 2 true
  tcb := {
    cWnd := 30, cWndInfl := 30, ssThresh := 30, segmentSize := 2
    highTxMark := .ofNat 1, nextTxSequence := .ofNat 1 }
  around := { highRxAckMark := .ofNat 1 }

def lossyOps : SenderOps (TcpCerl TcpCerl.Delays) PrrState :=
  ⟨TcpCerl.ops TcpCerl.delays, (RecoveryAlgorithm.prr .ssrb).ops⟩

/-- The first segment is lost. The next three arrive, and it is sent again. -/
def firstLost : List Event :=
  [.send (List.replicate 30 0), .sendPendingData 20] ++
    [5, 7, 9].flatMap fun stop =>
      arrives {} (pureAck 1 TcpHeader.ACK [.sack [(.ofNat 3, .ofNat stop)]])

/-- The first segment arrives at last. The fifth is lost as well, and the sixth is not. -/
def fifthLost : List Event :=
  arrives {} { pureAck 9 TcpHeader.ACK [.sack [(.ofNat 11, .ofNat 13)]] with currentDelivered := 4 }

/-- Everything else arrives after the first segment. -/
def allArrived : List Event :=
  arrives {} { pureAck 31 TcpHeader.ACK [] with currentDelivered := 24 }

/-- The ACK with a hole behind it is a duplicate and a partial one: its four bytes are fed twice.
The ACK that ends a recovery without another hole is neither: its bytes are not fed. -/
theorem balanced_fails :
    ¬ Run.Always (step .debug lossyOps) Balanced { sender := lossy } (firstLost ++ fifthLost) ∧
      ¬ Run.Always (step .debug lossyOps) Balanced { sender := lossy }
        (firstLost ++ allArrived) := by
  have twice : (Run.exec (step .debug lossyOps) { sender := lossy } (firstLost ++ fifthLost)).any
      (fun w => decide (w.fed = 10 ∧ w.delivered = 6)) = true := by
    decide +kernel
  have never : (Run.exec (step .debug lossyOps) { sender := lossy } (firstLost ++ allArrived)).any
      (fun w => decide (w.fed = 2 ∧ w.delivered = 26)) = true := by
    decide +kernel
  obtain ⟨w, run, books⟩ := (Option.any_eq_true _ _).mp twice
  obtain ⟨v, run', books'⟩ := (Option.any_eq_true _ _).mp never
  have fed := of_decide_eq_true books
  have fed' := of_decide_eq_true books'
  constructor
  · intro always
    have balanced : w.fed = w.delivered := always.last run
    omega
  · intro always
    have balanced : v.fed = v.delivered := always.last run'
    omega

end Booked

end Sender

end TcpSocketBase

end Ns3
