import Ns3.Internet.TcpSocketBase.Sender.Transitions
import Ns3.Internet.TcpCerl.Basic
import Ns3.Library.Run

/-!
# The count of duplicate ACKs

`DupAck` asserts that the first duplicate ACK in `CA_OPEN` is counted as number one,
and that in `CA_DISORDER` no more than `m_retxThresh` are counted. Both rest on
`m_dupAckCount`, which every way into `CA_OPEN` has to reset. The way out of `CA_CWR`
does not: duplicates that arrive during an ECN reaction stay counted.
-/

namespace Ns3.TcpSocketBase.Sender

variable {σ ρ : Type} (profile : BuildProfile) (ops : SenderOps σ ρ)

/-- Whether the SACK options of a segment change the scoreboard. -/
def sacks (options : List TcpOption) (s : Sender σ ρ) : Bool :=
  match s.readOptions profile options 0 with
  | some (bytesSacked, _) => 0 < bytesSacked
  | none => false

/-- Whether `ProcessAck` will take the ACK for a duplicate. -/
def duplicates (h : TcpHeader) (s : Sender σ ρ) : Bool :=
  s.isDupack h.ackNumber (s.sacks profile h.options) s.txBuffer.headSequence

/-- The two assertions of `DupAck`, which does nothing after a timeout. -/
def dupAckAsserts (s : Sender σ ρ) : Prop :=
  s.tcb.congState ≠ .caLoss →
    s.countDupAck.openAssertion = true ∧
      ((s.countDupAck.leaveOpen ops).tcb.congState = .caDisorder →
        (s.countDupAck.leaveOpen ops).disorderAssertion = true)

/-- What the event finds where `ProcessAck` starts: nothing is counted in `CA_OPEN`, and
the assertions of `DupAck` hold if it is called. -/
def AssertionsHold (s : Sender σ ρ) : Event → Prop
  | .receivedAck a => ∀ call, s.untilProcessAck profile ops a = some (.inl call) →
      (call.sender.tcb.congState = .caOpen → call.sender.dupAckCount = 0) ∧
        (call.sender.isDupack a.header.ackNumber call.scoreboardUpdated call.oldHeadSequence =
          true →
          dupAckAsserts ops { call.sender with tcb.lastAckedSeq := a.header.ackNumber })
  | _ => True

/-- An ACK ends `CA_CWR` for `CA_OPEN`. -/
def opensFromCwr (h : TcpHeader) (s : Sender σ ρ) : Bool :=
  s.leavesCwr h.ackNumber && !s.entersCwr h

/-- Where an ACK ends `CA_CWR`, no duplicates were counted; a recovery point that is still
active is passed by this ACK, and a duplicate that comes with it does not use up the
threshold. The first duplicate in `CA_OPEN` does not exceed the threshold. -/
def CountsAnew (s : Sender σ ρ) : Event → Prop
  | .receivedAck a =>
    (s.opensFromCwr a.header = true → s.dupAckCount = 0 ∧
      (s.recoverActive = true → a.header.ackNumber.gt s.txBuffer.headSequence = true ∧
        (s.duplicates profile a.header = true → 1 < s.retxThresh ∨
          s.retxThresh = 1 ∧ s.around.highRxAckMark.ge s.recover = true))) ∧
    ((s.afterCwr a.header.ackNumber).tcb.congState = .caOpen → s.entersCwr a.header = false →
      s.recoverActive = false → s.duplicates profile a.header = true → 1 ≤ s.retxThresh)
  | _ => True

instance (s : Sender σ ρ) : DecidablePred (s.CountsAnew profile)
  | .receivedAck _ => instDecidableAnd
  | .reTxTimeout _ | .send _ | .sendPendingData _ | .receivedSyn _ | .surround _ =>
    instDecidableTrue

variable {profile} {ops} {s t : Sender σ ρ}

/-! ## The invariant between events -/

/-- Between events nothing is counted in `CA_OPEN` and in `CA_LOSS`, and fewer duplicates
than the threshold in `CA_DISORDER`. Only a recovery and `CA_CWR` leave a count behind. -/
structure CountsDuplicates (s : Sender σ ρ) : Prop where
  isOpen : s.tcb.congState = .caOpen → s.dupAckCount = 0 ∧ s.recoverActive = false
  disorder : s.tcb.congState = .caDisorder → s.recoverActive = false ∧ s.dupAckCount < s.retxThresh
  loss : s.tcb.congState = .caLoss → s.dupAckCount = 0

/-- The same where `ProcessAck` starts: a recovery point that is active in `CA_OPEN` is
passed by this ACK, which is one of new data. -/
structure CountsAtProcessAck (ack oldHeadSequence : SequenceNumber32) (dup : Bool)
    (s : Sender σ ρ) : Prop where
  isOpen : s.tcb.congState = .caOpen → s.dupAckCount = 0
  passed : s.tcb.congState = .caOpen → s.recoverActive = true →
    ack.gt oldHeadSequence = true ∧ ack.ge s.recover = true ∧
      (dup = true → 1 < s.retxThresh ∨
        s.retxThresh = 1 ∧ s.around.highRxAckMark.ge s.recover = true)
  threshold : s.tcb.congState = .caOpen → s.recoverActive = false → dup = true → 1 ≤ s.retxThresh
  disorder : s.tcb.congState = .caDisorder → s.recoverActive = false ∧ s.dupAckCount < s.retxThresh
  loss : s.tcb.congState = .caLoss → s.dupAckCount = 0

/-- The same after `DupAck`. -/
structure CountsAfterDupAck (ack oldHeadSequence : SequenceNumber32) (s : Sender σ ρ) : Prop where
  isOpen : s.tcb.congState = .caOpen → s.dupAckCount = 0
  disorder : s.tcb.congState = .caDisorder → s.dupAckCount < s.retxThresh
  loss : s.tcb.congState = .caLoss → s.dupAckCount = 0
  passed : s.tcb.congState = .caOpen ∨ s.tcb.congState = .caDisorder → s.recoverActive = true →
    ack.gt oldHeadSequence = true ∧ ack.ge s.recover = true

theorem CountsDuplicates.kept (h : CountsDuplicates s) (kept : Kept s t) : CountsDuplicates t where
  isOpen := by
    rw [kept.congState, kept.dupAckCount, kept.recoverActive]
    exact h.isOpen
  disorder := by
    rw [kept.congState, kept.dupAckCount, kept.recoverActive, kept.retxThresh]
    exact h.disorder
  loss := by
    rw [kept.congState, kept.dupAckCount]
    exact h.loss

theorem CountsDuplicates.marked (h : CountsDuplicates s) (mark : SequenceNumber32) :
    CountsDuplicates (s.marked mark) := ⟨h.isOpen, h.disorder, h.loss⟩

theorem CountsDuplicates.of_recovery (state : s.tcb.congState = .caRecovery ∨
    s.tcb.congState = .caCwr) :
    CountsDuplicates s := by
  constructor <;> (intro found; simp [found] at state)

theorem CountsDuplicates.of_open (state : s.tcb.congState = .caOpen) (count : s.dupAckCount = 0)
    (inactive : s.recoverActive = false) : CountsDuplicates s where
  isOpen _ := ⟨count, inactive⟩
  disorder found := by simp [state] at found
  loss found := by simp [state] at found

theorem CountsDuplicates.of_loss (state : s.tcb.congState = .caLoss) (count : s.dupAckCount = 0) :
    CountsDuplicates s where
  isOpen found := by simp [state] at found
  disorder found := by simp [state] at found
  loss _ := count

/-! ## ProcessAck -/

variable {ack oldHeadSequence : SequenceNumber32} {dup : Bool} {delivered : BitVec 32}

theorem CountsAtProcessAck.kept (h : CountsAtProcessAck ack oldHeadSequence dup s)
    (kept : Kept s t) : CountsAtProcessAck ack oldHeadSequence dup t where
  isOpen := by
    rw [kept.congState, kept.dupAckCount]
    exact h.isOpen
  passed := by
    rw [kept.congState, kept.recoverActive, kept.recover, kept.retxThresh, kept.highRxAckMark]
    exact h.passed
  threshold := by
    rw [kept.congState, kept.recoverActive, kept.retxThresh]
    exact h.threshold
  disorder := by
    rw [kept.congState, kept.dupAckCount, kept.recoverActive, kept.retxThresh]
    exact h.disorder
  loss := by
    rw [kept.congState, kept.dupAckCount]
    exact h.loss

theorem disorderAssertion_iff :
    s.disorderAssertion = true ↔ s.dupAckCount ≤ s.retxThresh ∨ s.recoverActive = true := by
  rw [disorderAssertion, Bool.or_eq_true, decide_eq_true_eq]

theorem leaveOpen_asserts (state : s.tcb.congState = .caOpen ∨ s.tcb.congState = .caDisorder)
    (within : s.dupAckCount + 1 ≤ s.retxThresh ∨ s.recoverActive = true) :
    (s.countDupAck.leaveOpen ops).disorderAssertion = true := by
  have frame : Frame ops s.disordered (s.countDupAck.leaveOpen ops) := leaveOpen_frame state
  rw [disorderAssertion_iff, frame.dupAckCount, frame.retxThresh, frame.recoverActive]
  exact within

theorem CountsAtProcessAck.asserts (h : CountsAtProcessAck ack oldHeadSequence true s) :
    dupAckAsserts ops s := by
  intro other
  cases state : s.tcb.congState with
  | caLoss => exact absurd state other
  | caRecovery => simp [countDupAck, openAssertion, leaveOpen, state]
  | caCwr => simp [countDupAck, openAssertion, leaveOpen, state]
  | caOpen =>
    have none := h.isOpen state
    constructor
    · simp [countDupAck, openAssertion, state, none]
    · intro _
      apply leaveOpen_asserts (.inl state)
      cases active : s.recoverActive with
      | true => exact .inr rfl
      | false => exact .inl (by simpa [none] using h.threshold state active rfl)
  | caDisorder =>
    have below := (h.disorder state).2
    constructor
    · simp [countDupAck, openAssertion, state]
    · intro _
      apply leaveOpen_asserts (.inr state)
      exact .inl (by bv_omega)

theorem CountsAtProcessAck.silent (h : CountsAtProcessAck ack oldHeadSequence dup s) :
    CountsAfterDupAck ack oldHeadSequence s where
  isOpen := h.isOpen
  disorder state := (h.disorder state).2
  loss := h.loss
  passed state active := by
    obtain isOpen | disorder := state
    · exact ⟨(h.passed isOpen active).1, (h.passed isOpen active).2.1⟩
    · simp [(h.disorder disorder).1] at active

/-- A duplicate that neither starts a recovery nor fails an assertion stays below the
threshold. -/
theorem CountsAtProcessAck.stays (h : CountsAtProcessAck ack oldHeadSequence true s)
    (state : s.tcb.congState = .caOpen ∨ s.tcb.congState = .caDisorder) {u : Sender σ ρ}
    (frame : Frame ops s.disordered u) (stays : u.recoversFromDisorder = false) :
    s.dupAckCount + 1 < s.retxThresh := by
  have mark : u.around.highRxAckMark = s.around.highRxAckMark := frame.highRxAckMark
  have recover : u.recover = s.recover := frame.recover
  have count : u.dupAckCount = s.dupAckCount + 1 := frame.dupAckCount
  have thresh : u.retxThresh = s.retxThresh := frame.retxThresh
  have active : u.recoverActive = s.recoverActive := frame.recoverActive
  simp only [recoversFromDisorder, mark, recover, count, thresh, active, Bool.or_eq_false_iff,
    Bool.and_eq_false_iff, decide_eq_false_iff_not, Bool.not_eq_false'] at stays
  have notReached := stays.1
  obtain isOpen | disorder := state
  · have none := h.isOpen isOpen
    rw [none] at notReached ⊢
    cases found : s.recoverActive with
    | true =>
      obtain more | ⟨one, above⟩ := (h.passed isOpen found).2.2 rfl
      · simpa using more
      · simp [one, above] at notReached
    | false =>
      have atLeast := h.threshold isOpen found rfl
      simp only [found, Bool.false_eq_true, and_false, or_false] at notReached
      bv_omega
  · obtain ⟨inactive, below⟩ := h.disorder disorder
    simp only [inactive, Bool.false_eq_true, and_false, or_false] at notReached
    bv_omega

theorem CountsAtProcessAck.dupAck (h : CountsAtProcessAck ack oldHeadSequence true s)
    (run : s.dupAck profile ops delivered = some t) : CountsAfterDupAck ack oldHeadSequence t := by
  obtain ⟨state, frame⟩ | ⟨state, rfl⟩ | ⟨state, u, frame, entered | ⟨same, stays⟩⟩ :=
    dupAck_cases run
  · exact (h.kept frame.toKept).silent
  · constructor <;> simp [state]
  · have recovering : t.tcb.congState = .caRecovery := (enterRecovery_kept entered).congState
    constructor <;> simp [recovering]
  · have both := frame.trans same
    have disorder : t.tcb.congState = .caDisorder := both.congState
    constructor
    · intro isOpen
      simp [disorder] at isOpen
    · intro _
      rw [both.dupAckCount, both.retxThresh]
      exact h.stays state frame stays
    · intro loss
      simp [disorder] at loss
    · intro _ active
      rw [both.recover]
      have wasActive : s.recoverActive = true := both.recoverActive.symm.trans active
      obtain isOpen | inDisorder := state
      · exact ⟨(h.passed isOpen wasActive).1, (h.passed isOpen wasActive).2.1⟩
      · simp [(h.disorder inDisorder).1] at wasActive

theorem ackCounted_count (none : s.dupAckCount = 0) : (s.ackCounted dup).dupAckCount = 0 := by
  simp [ackCounted, none]

theorem deactivateRecover_inactive (above : ack.ge s.recover = true) :
    (s.deactivateRecover ack).recoverActive = false := by
  simp [deactivateRecover, above]

theorem CountsAfterDupAck.acknowledges (h : CountsAfterDupAck ack oldHeadSequence s)
    (acks : Acknowledges ops ack dup s t) : CountsDuplicates t := by
  have passed (state : s.tcb.congState = .caOpen ∨ s.tcb.congState = .caDisorder) :
      (s.deactivateRecover ack).recoverActive = false := by
    cases active : s.recoverActive with
    | true => exact deactivateRecover_inactive (h.passed state active).2
    | false => simp [deactivateRecover, active]
  cases acks with
  | below state frame =>
    obtain inRecovery | inLoss := state
    · exact .of_recovery (.inl (frame.congState.trans inRecovery))
    · refine .of_loss (frame.congState.trans inLoss) ?_
      exact frame.dupAckCount.trans (ackCounted_count (h.loss inLoss))
  | inCwr state frame => exact .of_recovery (.inr (frame.congState.trans state))
  | recovered state above u frame rest =>
    have left := (exitRecovery_kept ops u).trans rest.toKept
    have above := SequenceNumber.ge_of_not_lt above
    refine .of_open (left.congState.trans frame.congState)
      (left.dupAckCount.trans frame.dupAckCount) ?_
    exact (left.recoverActive.trans frame.recoverActive).trans (deactivateRecover_inactive above)
  | afterLoss state above frame =>
    have above := SequenceNumber.ge_of_not_lt above
    refine .of_open frame.congState ?_ ?_
    · exact frame.dupAckCount.trans (ackCounted_count (h.loss state))
    · exact frame.recoverActive.trans (deactivateRecover_inactive above)
  | ordered state new frame =>
    refine .of_open frame.congState ?_ (frame.recoverActive.trans (passed (.inr state)))
    exact frame.dupAckCount.trans
      (by simp [reopened, deactivateRecover, ackCounted, setCongState, new])
  | stillDisordered state dup frame =>
    have inDisorder : t.tcb.congState = .caDisorder := frame.congState.trans state
    constructor
    · intro found
      simp [inDisorder] at found
    · intro _
      refine ⟨frame.recoverActive.trans (passed (.inr state)), ?_⟩
      rw [frame.dupAckCount, frame.retxThresh]
      exact h.disorder state
    · intro found
      simp [inDisorder] at found
  | inOpen state frame =>
    refine .of_open (frame.congState.trans state) ?_
      (frame.recoverActive.trans (passed (.inl state)))
    exact frame.dupAckCount.trans (ackCounted_count (h.isOpen state))

theorem CountsAfterDupAck.processAcked {oldDupAckCount : BitVec 32}
    (h : CountsAfterDupAck ack oldHeadSequence s)
    (run : s.processAcked profile ops ack oldHeadSequence delivered oldDupAckCount dup = some t) :
    CountsDuplicates t := by
  obtain ⟨notNew, frame⟩ | ⟨-, -, acks⟩ := processAcked_cases run
  · have notAbove : ack.gt oldHeadSequence = false := by
      obtain rfl | below := notNew
      · exact SequenceNumber.gt_self ack
      · exact below
    have inactive (state : s.tcb.congState = .caOpen ∨ s.tcb.congState = .caDisorder) :
        s.recoverActive = false := by
      rw [Bool.eq_false_iff]
      intro active
      simp [(h.passed state active).1] at notAbove
    have counts : CountsDuplicates s := {
      isOpen state := ⟨h.isOpen state, inactive (.inl state)⟩
      disorder state := ⟨inactive (.inr state), h.disorder state⟩
      loss := h.loss }
    exact counts.kept frame.toKept
  · exact h.acknowledges acks

theorem CountsAtProcessAck.processAck {sacked : Bool}
    (h : CountsAtProcessAck ack oldHeadSequence (s.isDupack ack sacked oldHeadSequence) s)
    (run : s.processAck profile ops ack sacked delivered oldHeadSequence = some t) :
    CountsDuplicates t := by
  obtain ⟨u, v, noted, called, rest⟩ := processAck_cases run
  have counted : CountsAfterDupAck ack oldHeadSequence v := by
    obtain ⟨-, rfl⟩ | ⟨dup, duplicate⟩ := called
    · exact (h.kept noted.toKept).silent
    · rw [dup] at h
      exact (h.kept noted.toKept).dupAck duplicate
  exact counted.processAcked rest

/-! ## The events -/

theorem afterCwr_kept (ack : SequenceNumber32) (s : Sender σ ρ) :
    Kept (s.setCongState (s.afterCwr ack).tcb.congState) (s.afterCwr ack) := by
  unfold afterCwr
  split <;> exact { Kept.refl s with congState := rfl }

/-- `ReceivedAck` computes before `ProcessAck` what the ACK will be taken for. -/
theorem untilProcessAck_duplicates {a : Ack} {call : ProcessAckCall σ ρ}
    (run : s.untilProcessAck profile ops a = some (.inl call)) :
    call.sender.isDupack a.header.ackNumber call.scoreboardUpdated call.oldHeadSequence =
      s.duplicates profile a.header := by
  have sent := untilProcessAck_highTxMark run
  obtain ⟨head, -, ⟨bytesSacked, u, read, sacked⟩, v, left, rest⟩ := untilProcessAck_cases run
  have scoreboard : s.sacks profile a.header.options = call.scoreboardUpdated := by
    rw [sacks, read, sacked]
  have enabled : call.sender.sackEnabled = s.sackEnabled := by
    have before := left.sackEnabled.trans (afterCwr_kept a.header.ackNumber s).sackEnabled
    obtain ⟨-, quiet⟩ | ⟨-, w, entered, counted⟩ := rest
    · exact quiet.sackEnabled.trans before
    · exact (counted.sackEnabled.trans (enterCwr_kept entered).sackEnabled).trans before
  rw [duplicates, isDupack, isDupack, scoreboard, enabled, sent, head]

section

variable (h : CountsDuplicates s)
include h

/-- The condition of the event and the invariant, where `ProcessAck` starts. -/
theorem CountsDuplicates.processAckCall {a : Ack}
    (anew : s.CountsAnew profile (.receivedAck a)) {call : ProcessAckCall σ ρ}
    (run : s.untilProcessAck profile ops a = some (.inl call)) :
    CountsAtProcessAck a.header.ackNumber call.oldHeadSequence
      (s.duplicates profile a.header) call.sender := by
  obtain ⟨clean, first⟩ := anew
  obtain ⟨head, -, -, u, left, ⟨stays, quiet⟩ | ⟨-, v, entered, counted⟩⟩ :=
    untilProcessAck_cases run
  · rw [head]
    suffices CountsAtProcessAck a.header.ackNumber s.txBuffer.headSequence
        (s.duplicates profile a.header) (s.afterCwr a.header.ackNumber) from
      this.kept (left.trans quiet).toKept
    cases leaves : s.leavesCwr a.header.ackNumber with
    | false =>
      have same : s.afterCwr a.header.ackNumber = s := by simp [afterCwr, leaves]
      rw [same] at first ⊢
      exact {
        isOpen := fun state => (h.isOpen state).1
        passed := fun state active => by simp [(h.isOpen state).2] at active
        threshold := fun state => first state stays
        disorder := h.disorder
        loss := h.loss }
    | true =>
      have opened : s.afterCwr a.header.ackNumber = s.setCongState .caOpen := by
        simp [afterCwr, leaves]
      have above : a.header.ackNumber.gt s.recover = true := by
        simp only [leavesCwr, Bool.and_eq_true] at leaves
        exact leaves.2
      have opens : s.opensFromCwr a.header = true := by simp [opensFromCwr, leaves, stays]
      obtain ⟨none, passed⟩ := clean opens
      rw [opened] at first ⊢
      constructor
      · intro _
        exact none
      · intro _ active
        obtain ⟨new, within⟩ := passed active
        exact ⟨new, SequenceNumber.ge_of_gt above, within⟩
      · intro state
        exact first state stays
      · intro state
        cases state
      · intro state
        cases state
  · have inCwr : call.sender.tcb.congState = .caCwr :=
      counted.congState.trans (enterCwr_kept entered).congState
    constructor <;> simp [inCwr]

theorem CountsDuplicates.assertionsHold {e : Event}
    (anew : s.CountsAnew profile e) : s.AssertionsHold profile ops e := by
  cases e with
  | receivedAck a =>
    intro call run
    have counts := h.processAckCall anew run
    refine ⟨counts.isOpen, fun dup => ?_⟩
    rw [← untilProcessAck_duplicates run, dup] at counts
    have noted : Kept call.sender { call.sender with tcb.lastAckedSeq := a.header.ackNumber } :=
      { Kept.refl call.sender with }
    exact (counts.kept noted).asserts
  | _ => trivial

theorem CountsDuplicates.receivedAck {a : Ack}
    (anew : s.CountsAnew profile (.receivedAck a)) (run : s.receivedAck profile ops a = some t) :
    CountsDuplicates t := by
  obtain ⟨mark, frame⟩ | ⟨call, u, mark, until_, processed, frame⟩ := receivedAck_cases run
  · exact (h.marked mark).kept frame.toKept
  · have counts := h.processAckCall anew until_
    rw [← untilProcessAck_duplicates until_] at counts
    exact ((counts.processAck processed).marked mark).kept frame.toKept

theorem CountsDuplicates.reTxTimeout {turns : Nat}
    (run : s.reTxTimeout profile ops turns = some t) : CountsDuplicates t := by
  obtain frame | ⟨u, v, inFlight, lost, threshold, frame⟩ := reTxTimeout_cases run
  · exact h.kept frame.toKept
  · have count : v.dupAckCount = 0 := by
      obtain rfl | set := threshold
      · exact lost.dupAckCount
      · exact (setSsThresh_kept set).dupAckCount.trans lost.dupAckCount
    exact .of_loss frame.congState (frame.dupAckCount.trans count)

/-- One event keeps the invariant. -/
theorem CountsDuplicates.step {e : Event} (anew : s.CountsAnew profile e)
    (run : s.step profile ops e = some t) : CountsDuplicates t := by
  cases e with
  | receivedAck a => exact h.receivedAck anew run
  | reTxTimeout turns => exact h.reTxTimeout run
  | send p =>
    have frame : Frame ops s t := .send run
    exact h.kept frame.toKept
  | sendPendingData turns =>
    have frame : Frame ops s t := .sendPendingData run
    exact h.kept frame.toKept
  | receivedSyn header =>
    cases run
    exact ⟨h.isOpen, h.disorder, h.loss⟩
  | surround around =>
    cases run
    exact (h.marked around.highRxAckMark).kept (surround_frame ops around s).toKept

end

/-- A socket before its first segment. -/
structure Idle (s : Sender σ ρ) : Prop where
  congState : s.tcb.congState = .caOpen
  dupAckCount : s.dupAckCount = 0
  recoverActive : s.recoverActive = false

/-- The assertions of the congestion state machine hold in every run in which `CA_CWR`
ends with no duplicates counted. -/
theorem congestionState_assertions (profile : BuildProfile) (ops : SenderOps σ ρ)
    (s : Sender σ ρ) (start : s.Idle) (events : List Event)
    (anew : Run.Meets (step profile ops) (CountsAnew profile) s events) :
    Run.Meets (step profile ops) (AssertionsHold profile ops) s events := by
  have counts : CountsDuplicates s := .of_open start.congState start.dupAckCount start.recoverActive
  refine Run.Meets.of_invariant counts anew ?_ ?_
  · intro s e t counts anew run
    exact counts.step anew run
  · intro s e counts anew
    exact counts.assertionsHold anew

/-! ## A run with an ECN echo -/

/-- TCP CERL with the classic recovery, and a window of nine segments of two bytes. -/
def echoed : Sender (TcpCerl TcpCerl.Delays) PrrState where
  congestionControl := { statistics := {} }
  recoveryOps := {}
  txBuffer := TcpTxBuffer.start (.ofNat 1) 1000 3 2 true
  tcb := {
    cWnd := 18, cWndInfl := 18, ssThresh := 18, segmentSize := 2, ecnState := .ecnIdle
    highTxMark := .ofNat 1, nextTxSequence := .ofNat 1 }
  around := { highRxAckMark := .ofNat 1, ecnState := .ecnIdle }

def echoedOps : SenderOps (TcpCerl TcpCerl.Delays) PrrState :=
  ⟨TcpCerl.ops TcpCerl.delays, RecoveryAlgorithm.classic.ops⟩

/-- Outside an ECN reaction. -/
def idle : Surroundings := { ecnState := .ecnIdle }

/-- An ECN echo of the second segment, and then six segments arrive before the third. -/
def reordered : List Event :=
  [.send (List.replicate 30 0), .sendPendingData 20] ++
    arrives idle (pureAck 3 TcpHeader.ACK []) ++
    arrives idle (pureAck 5 (TcpHeader.ACK ||| TcpHeader.ECE) []) ++
    arrives { idle with ecnState := .ecnEceRcvd }
      (pureAck 5 TcpHeader.ACK [.sack [(.ofNat 7, .ofNat 19)]])

/-- The third to eleventh segments have arrived, and the thirteenth has. -/
def ending : Ack := pureAck 23 TcpHeader.ACK [.sack [(.ofNat 25, .ofNat 27)]]

theorem congestionState_assertions_echoed :
    echoed.Idle ∧ Run.Meets (step .debug echoedOps) (AssertionsHold .debug echoedOps) echoed
      (reordered ++ arrives idle (pureAck 19 TcpHeader.ACK []) ++ arrives idle ending) := by
  have start : echoed.Idle := ⟨rfl, rfl, rfl⟩
  refine ⟨start, congestionState_assertions .debug echoedOps echoed start _ ?_⟩
  decide +kernel

/-- The ACK that ends `CA_CWR` finds a duplicate still counted, and is one itself. -/
theorem congestionState_assertion_fails :
    echoed.Idle ∧ ¬ Run.Meets (step .debug echoedOps) (AssertionsHold .debug echoedOps) echoed
      (reordered ++ arrives idle ending) := by
  refine ⟨⟨rfl, rfl, rfl⟩, fun meets => ?_⟩
  have reached : ((Run.exec (step .debug echoedOps) echoed (reordered ++
      [.surround { idle with highRxAckMark := .ofNat 23 }])).bind fun s =>
        s.untilProcessAck .debug echoedOps ending).any (Sum.elim
        (fun call => call.sender.tcb.congState = .caOpen ∧ call.sender.dupAckCount = 1)
        fun _ => false) = true := by
    decide +kernel
  obtain ⟨result, until_, found⟩ := Option.any_eq_true _ _ |>.mp reached
  obtain ⟨s, run, returns⟩ := bind_returns.mp until_
  cases result with
  | inr _ => simp at found
  | inl call =>
    obtain ⟨isOpen, counted⟩ := of_decide_eq_true found
    have last : Run.Meets (step .debug echoedOps) (AssertionsHold .debug echoedOps) s
        [.receivedAck ending] := Run.Meets.after meets run
    have none := (last.1 call returns).1 isOpen
    rw [counted] at none
    exact absurd none (by decide)

end Ns3.TcpSocketBase.Sender
