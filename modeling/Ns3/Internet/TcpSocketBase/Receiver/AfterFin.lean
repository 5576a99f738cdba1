import Ns3.Internet.TcpRxBuffer.BeyondFin
import Ns3.Internet.TcpSocketBase.Receiver.Fin

/-!
# Data behind the FIN of the peer

`DoPeerClose` asserts that the connection has not left the states that can receive a FIN.
`ReceivedData` calls it for every packet that moves the next expected byte while the FIN is known
to be received. Where all data ends at the FIN no packet does that twice.
-/

namespace Ns3.TcpSocketBase.Receiver

open TcpRxBuffer (FinAccess FinTracked FinRespected StaysFinished finAccess empty)

section Conditions

/-- The state that `DoPeerClose` asserts. -/
def mayPeerClose (s : Receiver) : Bool :=
  s.state == .established || s.state == .synRcvd || s.state == .finWait1 || s.state == .finWait2

/-- What the call does to the receive buffer keeps all data in front of the FIN. -/
def KeepsFin (s : Receiver) : Call → Prop
  | .receivedData _ p h _ => s.rxBuffer.KeepsFin (.add p h.sequenceNumber)
  | .setFinSequence seq => s.rxBuffer.KeepsFin (.setFinSequence seq)
  | _ => True

instance (s : Receiver) : (c : Call) → Decidable (s.KeepsFin c)
  | .receivedData _ p h _ =>
    inferInstanceAs (Decidable (s.rxBuffer.KeepsFin (.add p h.sequenceNumber)))
  | .setFinSequence seq => inferInstanceAs (Decidable (s.rxBuffer.KeepsFin (.setFinSequence seq)))
  | .doForwardUp _ | .delAckTimeout | .recv _ | .sendEmptyPacket _ | .sendDataPacket =>
    instDecidableTrue

/-- When data makes `ReceivedData` call `DoPeerClose`, the assertion there holds. -/
def PeerCloseAsserted (profile : BuildProfile) (s : Receiver) (c : Call) : Prop :=
  ∀ now p h app, c = .receivedData now p h app → ∀ u v, s.arrive profile now = some u →
    u.store profile p h app = some (.complete, v) → v.mayPeerClose = true

end Conditions

variable {profile : BuildProfile} {isn : SequenceNumber32} {s t u : Receiver}
variable {p : Packet} {h : TcpHeader} {app : Application}

/-- The connection may still get a FIN, unless it has got one. -/
structure Closing (isn : SequenceNumber32) (s : Receiver) : Prop where
  tracked : FinTracked isn s.rxBuffer
  open_ : s.mayPeerClose = true ∨ s.rxBuffer.finished = true

theorem tracked_ending (isn : SequenceNumber32) : Ending profile fun s t =>
    FinTracked isn s.rxBuffer → FinTracked isn t.rxBuffer where
  refl _ tracked := tracked
  trans first second tracked := second (first tracked)
  other rxBuffer _ _ _ _ tracked := rxBuffer.symm ▸ tracked
  extract run tracked := tracked.extract run
  state _ _ tracked := tracked

theorem state_quiet : Quiet profile fun s t => t.state = s.state where
  refl _ := rfl
  trans first second := second.trans first
  other _ _ _ _ state := state
  extract _ := rfl

theorem Frame.finished (frame : Frame s t) : t.rxBuffer.finished = s.rxBuffer.finished := by
  rw [TcpRxBuffer.finished, TcpRxBuffer.finished, frame.gotFin, frame.finSeq, frame.nextRxSeq]

theorem mayPeerClose_of_state (state : t.state = s.state) : t.mayPeerClose = s.mayPeerClose := by
  rw [mayPeerClose, mayPeerClose, state]

theorem Closing.quiet (closing : Closing isn s) {call : Option Receiver}
    (frame : Contract True call (Frame s)) (state : Contract True call fun t => t.state = s.state)
    (tracked : Contract True call fun t => FinTracked isn s.rxBuffer → FinTracked isn t.rxBuffer)
    (run : call = some t) : Closing isn t := by
  refine ⟨tracked.of_eq_some run closing.tracked, ?_⟩
  rw [mayPeerClose_of_state (state.of_eq_some run), (frame.of_eq_some run).finished]
  exact closing.open_

theorem Closing.same (closing : Closing isn s) (rxBuffer : t.rxBuffer = s.rxBuffer)
    (state : t.state = s.state) : Closing isn t := by
  refine ⟨rxBuffer.symm ▸ closing.tracked, ?_⟩
  rw [mayPeerClose_of_state state, rxBuffer]
  exact closing.open_

theorem arrive_state {now : Int} (run : s.arrive profile now = some t) : t.state = s.state := by
  unfold arrive at run
  cases lastTime : s.delay.lastPacketTime with
  | none =>
    rw [lastTime] at run
    cases run
    rfl
  | some last =>
    rw [lastTime] at run
    obtain ⟨u, update, rfl⟩ := Option.map_eq_some_iff.mp run
    split at update
    · obtain ⟨⟨w, v⟩, advertised, update⟩ := bind_returns.mp update
      obtain rfl := advertisedWindowSize_eq advertised
      cases update
      rfl
    · cases update
      rfl

section

variable (closing : Closing isn s)
include closing

/-- A packet is stored: nothing changes once everything up to the FIN has been received, and the
connection ends only when that is so. -/
theorem Closing.store (keeps : s.rxBuffer.KeepsFin (.add p h.sequenceNumber)) {stored : Stored}
    (run : s.store profile p h app = some (stored, t)) :
    Closing isn t ∧ (stored = .complete → t.mayPeerClose = true ∧ t.rxBuffer.finished = true) := by
  obtain ⟨⟨added, rxBuffer⟩, insert, run⟩ := bind_returns.mp run
  obtain ⟨tracked, stays⟩ := closing.tracked.add keeps insert
  have after : Closing isn
      { s with rxBuffer, trace.added := (p, h.sequenceNumber) :: s.trace.added } := by
    refine ⟨tracked, ?_⟩
    rcases closing.open_ with may | done
    · exact .inl may
    · exact .inr (stays done).1
  dsimp only at run
  split at run
  · cases run
    exact ⟨after, fun complete => absurd complete (by decide)⟩
  · obtain ⟨u, reads, run⟩ := bind_returns.mp run
    obtain ⟨rfl, rfl⟩ := Prod.mk.inj (Option.some.inj run)
    have state := (state_quiet.notifyDataRecv _ app _).of_eq_some reads
    have kept : Closing isn u :=
      after.quiet (frame_notifyDataRecv _ app _) (state_quiet.notifyDataRecv _ app _)
        ((tracked_ending isn).notifyDataRecv _ app _) reads
    refine ⟨kept, fun complete => ?_⟩
    unfold Receiver.stored at complete
    by_cases done : (s.rxBuffer.nextRxSeq.lt rxBuffer.nextRxSeq && u.rxBuffer.finished &&
        !h.hasFlag TcpHeader.FIN) = true
    · rw [Bool.and_eq_true, Bool.and_eq_true] at done
      obtain ⟨⟨advanced, finished⟩, -⟩ := done
      refine ⟨?_, finished⟩
      rw [mayPeerClose_of_state state]
      rcases closing.open_ with may | before
      · exact may
      · -- What was complete before does not advance.
        have same := (stays before).2.2
        rw [same, SequenceNumber.lt] at advanced
        simp at advanced
    · rw [if_neg done] at complete
      split at complete
      · exact absurd complete (by decide)
      · exact absurd complete (by decide)

theorem Closing.answered {stored : Stored} :
    Closing isn (s.answered stored) := by
  cases stored with
  | outOfOrder => exact closing.same rfl rfl
  | refused => exact closing
  | complete => exact closing
  | inSequence => exact closing

/-- `ReceivedData`, and the assertion it may lead to. -/
theorem Closing.receivedData {now : Int}
    (keeps : s.rxBuffer.KeepsFin (.add p h.sequenceNumber))
    (run : s.receivedData profile now p h app = some t) : Closing isn t := by
  obtain ⟨u, arrived, run⟩ := bind_returns.mp run
  obtain ⟨⟨stored, v⟩, placed, run⟩ := bind_returns.mp run
  have same := (arrive_same arrived).2
  have arrived' : Closing isn u := closing.same same (arrive_state arrived)
  obtain ⟨after, done⟩ := arrived'.store (by rw [same]; exact keeps) placed
  by_cases complete : stored = .complete
  · have finished := (done complete).2
    have frame := (frame_answer app v stored).of_eq_some run
    have tracked := ((tracked_ending isn).answer app v stored).of_eq_some run
    refine ⟨tracked after.answered.tracked, .inr ?_⟩
    rw [frame.finished]
    subst complete
    exact finished
  · exact after.answered.quiet (frame_answer app v stored) (state_quiet.answer app v complete)
      ((tracked_ending isn).answer app v stored) run

theorem Closing.asserted {c : Call} (keeps : s.KeepsFin c) :
    PeerCloseAsserted profile s c := by
  rintro now p h app rfl u v arrived placed
  have same := (arrive_same arrived).2
  have arrived' : Closing isn u := closing.same same (arrive_state arrived)
  have keeps' : u.rxBuffer.KeepsFin (.add p h.sequenceNumber) := by
    rw [same]
    exact keeps
  exact ((arrived'.store keeps' placed).2 rfl).1

theorem Closing.step {c : Call} (keeps : s.KeepsFin c)
    (run : s.step profile c = some t) : Closing isn t := by
  cases c with
  | doForwardUp h =>
    obtain ⟨r, -, run⟩ := bind_returns.mp run
    cases run
    exact closing.same rfl rfl
  | receivedData now p h app => exact closing.receivedData keeps run
  | setFinSequence seq =>
    cases run
    obtain ⟨tracked, same⟩ := closing.tracked.setFinSequence keeps
    refine ⟨tracked, ?_⟩
    rcases closing.open_ with may | done
    · exact .inl may
    · refine .inr ?_
      have kept : (s.setFinSequence seq).rxBuffer = s.rxBuffer := same done
      rw [kept]
      exact done
  | delAckTimeout =>
    simp only [Receiver.step] at run
    split at run
    · have before : Closing isn { s.backOff with delAckRunning := false } := closing.same rfl rfl
      exact before.quiet (frame_acknowledge _) (state_quiet.acknowledge _)
        ((tracked_ending isn).acknowledge _) run
    · exact Option.some.inj run ▸ closing
  | recv maxSize =>
    exact closing.quiet (frame_recv maxSize s) (state_quiet.recv maxSize s)
      ((tracked_ending isn).recv maxSize s) run
  | sendEmptyPacket flags =>
    exact closing.quiet (frame_sendEmptyPacket flags s) (state_quiet.sendEmptyPacket flags s)
      ((tracked_ending isn).sendEmptyPacket flags s) run
  | sendDataPacket =>
    obtain ⟨⟨w, u⟩, advertised, run⟩ := bind_returns.mp run
    obtain rfl := advertisedWindowSize_eq advertised
    cases run
    exact closing.same rfl rfl

end

/-- Where all data ends at the FIN, nothing is stored behind it, the next expected byte stays at
most one behind it, and data never leads to the assertion of `DoPeerClose` in a state that fails
it. -/
theorem nothing_beyond_fin (profile : BuildProfile) (isn : SequenceNumber32) (maxBuffer : Nat) :
    (∀ calls : List FinAccess,
      Run.Meets (finAccess profile) TcpRxBuffer.KeepsFin (empty isn maxBuffer) calls →
        Run.Always (finAccess profile) FinRespected (empty isn maxBuffer) calls ∧
        Run.Meets (finAccess profile) (StaysFinished profile) (empty isn maxBuffer) calls) ∧
    ∀ (s : Receiver) (calls : List Call), s.rxBuffer = empty isn maxBuffer →
      s.mayPeerClose = true → Run.Meets (Receiver.step profile) KeepsFin s calls →
        Run.Meets (Receiver.step profile) (PeerCloseAsserted profile) s calls := by
  constructor
  · intro calls keeps
    have start := FinTracked.start isn maxBuffer
    constructor
    · exact Run.Always.of_invariant start keeps (fun _ => FinTracked.respected)
        fun _ _ _ tracked condition run => (tracked.access condition run).1
    · refine Run.Meets.of_invariant start keeps
        (fun _ _ _ tracked condition run => (tracked.access condition run).1) ?_
      intro b c tracked condition done _ b' run
      exact (tracked.access condition run).2 done
  · intro s calls fresh may keeps
    have start : Closing (isn.at (-(SequenceNumber.halfMaxValue 32 : Nat) : Int)) s :=
      ⟨fresh ▸ FinTracked.start isn maxBuffer, Or.inl may⟩
    exact Run.Meets.of_invariant start keeps
      (fun _ _ _ closing condition run => closing.step condition run)
      fun _ _ closing condition => closing.asserted condition

/-- A header with ACK. -/
def ackAt (seq : Nat) : TcpHeader := { sequenceNumber := .ofNat seq, flags := TcpHeader.ACK }

/-- The FIN comes first, then the data in front of it, the last part of it again, and the FIN. -/
theorem nothing_beyond_fin_reordered :
    (Run.Always (finAccess .debug) FinRespected (empty (.ofNat 1) 20)
        [.setFinSequence (.ofNat 5), .add [3, 4] (.ofNat 3), .add [1, 2] (.ofNat 1), .extract 3,
          .add [2, 3, 4] (.ofNat 2), .setFinSequence (.ofNat 5)] ∧
      Run.Meets (finAccess .debug) (StaysFinished .debug) (empty (.ofNat 1) 20)
        [.setFinSequence (.ofNat 5), .add [3, 4] (.ofNat 3), .add [1, 2] (.ofNat 1), .extract 3,
          .add [2, 3, 4] (.ofNat 2), .setFinSequence (.ofNat 5)]) ∧
    Run.Meets (Receiver.step .debug) (PeerCloseAsserted .debug)
      { rxBuffer := empty (.ofNat 1) 20 }
      [.setFinSequence (.ofNat 5), .receivedData 0 [3, 4] (ackAt 3) {},
        .receivedData 1 [1, 2] (ackAt 1) {}, .receivedData 2 [2, 3, 4] (ackAt 2) {}] :=
  ⟨(nothing_beyond_fin .debug (.ofNat 1) 20).1 _ (by decide),
    (nothing_beyond_fin .debug (.ofNat 1) 20).2 _ _ rfl (by decide) (by decide +kernel)⟩

/-- In CLOSE_WAIT a byte behind the FIN is stored, the next expected byte moves on, and
`ReceivedData` fails the assertion of `DoPeerClose`. -/
theorem stored_beyond_fin : ∃ t, Run.exec (Receiver.step .debug) { rxBuffer := empty (.ofNat 1) 20 }
        [.setFinSequence (.ofNat 3), .receivedData 0 [1, 2] (ackAt 1) {}] = some t ∧
      t.state = .closeWait ∧ t.isValidTcpSegment [9] (ackAt 4) = true ∧
      t.rxBuffer.finished = true ∧ t.rxBuffer.nextRxSeq = t.rxBuffer.finSeq.add 1 ∧
      (∃ b, t.rxBuffer.add .debug [9] (.ofNat 4) = some (true, b) ∧ ¬ FinRespected b ∧
        b.nextRxSeq ≠ t.rxBuffer.nextRxSeq) ∧
      ¬ PeerCloseAsserted .debug t (.receivedData 1 [9] (ackAt 4) {}) ∧
      t.step .debug (.receivedData 1 [9] (ackAt 4) {}) = none := by
  have ran : (Run.exec (Receiver.step .debug) { rxBuffer := empty (.ofNat 1) 20 }
      [.setFinSequence (.ofNat 3), .receivedData 0 [1, 2] (ackAt 1) {}]).any (fun t =>
        t.state = .closeWait ∧ t.isValidTcpSegment [9] (ackAt 4) = true ∧
        t.rxBuffer.finished = true ∧ t.rxBuffer.nextRxSeq = t.rxBuffer.finSeq.add 1 ∧
        (t.rxBuffer.add .debug [9] (.ofNat 4)).any (fun r => r.1 = true ∧ r.2.gotFin = true ∧
          r.2.nextRxSeq.le (r.2.finSeq.add 1) = false ∧
          r.2.nextRxSeq ≠ t.rxBuffer.nextRxSeq) = true ∧
        (t.arrive .debug 1).any (fun u => (u.store .debug [9] (ackAt 4) {}).any fun r =>
          r.1 = .complete ∧ r.2.mayPeerClose = false) = true ∧
        (t.step .debug (.receivedData 1 [9] (ackAt 4) {})).isNone = true) = true := by
    decide +kernel
  obtain ⟨t, run, holds⟩ := (Option.any_eq_true _ _).mp ran
  obtain ⟨state, valid, finished, next, stores, closes, stops⟩ := of_decide_eq_true holds
  refine ⟨t, run, state, valid, finished, next, ?_, ?_, Option.isNone_iff_eq_none.mp stops⟩
  · obtain ⟨⟨added, b⟩, insert, beyond⟩ := (Option.any_eq_true _ _).mp stores
    obtain ⟨rfl, got, past, moved⟩ := of_decide_eq_true beyond
    refine ⟨b, insert, fun respected => ?_, moved⟩
    exact absurd (past.symm.trans (respected got).2) Bool.false_ne_true
  · obtain ⟨u, arrived, placed⟩ := (Option.any_eq_true _ _).mp closes
    obtain ⟨⟨stored, v⟩, store, complete⟩ := (Option.any_eq_true _ _).mp placed
    obtain ⟨rfl, notOpen⟩ := of_decide_eq_true complete
    intro asserted
    have may := asserted 1 [9] (ackAt 4) {} rfl u v arrived store
    exact absurd (notOpen.symm.trans may) Bool.false_ne_true

end Ns3.TcpSocketBase.Receiver
