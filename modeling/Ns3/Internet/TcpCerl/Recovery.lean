import Ns3.Internet.TcpSocketBase.Sender.Transitions
import Ns3.Internet.TcpCerl.Basic
import Ns3.Library.Run

/-!
# The windows around a recovery with CERL

A recovery starts in `EnterRecovery`, which calls `CongestionStateSet`, `GetSsThresh`
and the two `EnterRecovery` hooks, and it ends in the two `ExitRecovery` hooks of
`ProcessAck`. In between the socket may leave `CA_RECOVERY` without them, by a timeout
or an ECN echo, and then a saved window stays behind.

The invariant says what CERL remembers during a recovery. What every finished recovery
did to the windows follows from it.
-/

namespace Ns3.TcpCerl

open TcpSocketBase TcpSocketBase.Sender

variable {τ : Type} (stats : CerlStatistics τ) (algorithm : RecoveryAlgorithm)

/-- A socket with CERL and one of the recovery algorithms. -/
def senderOps : SenderOps (TcpCerl τ) PrrState := ⟨ops stats, algorithm.ops⟩

/-- The loss counts as congestion: what `GetSsThresh` decides in `EnterRecovery`. -/
def congestionEntry (e : RecoveryEntry (TcpCerl τ)) :
    Bool := isCongestion stats e.tcb e.congestionControl

/-- The window that CERL holds during the recovery. A loss that is not congestion saves the
one at its start; after the other losses it is what was saved before. -/
def heldWindow (e : RecoveryEntry (TcpCerl τ)) : Int :=
  if congestionEntry stats e then e.congestionControl.oldCwnd else e.tcb.cWnd.toInt

/-- What CERL remembers of a recovery, with the threshold that belongs to it. -/
structure Remembers (e : RecoveryEntry (TcpCerl τ)) (reinitialized : Bool)
    (initialSsThresh ssThresh : BitVec 32) (c : TcpCerl τ) : Prop where
  initial : initialSsThresh = e.tcb.initialSsThresh
  held : c.oldCwnd = heldWindow stats e
  threshold : congestionEntry stats e = false →
    ssThresh = if reinitialized then initialSsThresh else e.tcb.ssThresh

/-- The congestion window that `TcpCerl::ExitRecovery` sets: the one it holds, if any. -/
def restoredWindow (e : RecoveryEntry (TcpCerl τ)) (ssThresh : BitVec 32) : BitVec 32 :=
  if 0 ≤ heldWindow stats e then BitVec.ofInt 32 (heldWindow stats e) else ssThresh

/-- What a finished recovery has done to the windows. -/
structure Restores (x : RecoveryExit (TcpCerl τ)) : Prop where
  threshold : congestionEntry stats x.entry = false →
    x.before.ssThresh =
      if x.reinitialized then x.entry.tcb.initialSsThresh else x.entry.tcb.ssThresh
  between : x.between =
    { x.before with cWnd := restoredWindow stats x.entry x.before.ssThresh }
  after_ssThresh : x.after.ssThresh = x.before.ssThresh
  after_cWnd : x.after.cWnd = match algorithm with
    | .classic => x.before.ssThresh
    | .prr _ => x.between.cWnd

/-- Between events the two flags of CERL are down, and it remembers a recovery that is
going on. -/
structure Inv (s : Sender (TcpCerl τ) PrrState) : Prop where
  entered : s.congestionControl.enteredRecovery = false
  decrease : s.congestionControl.decreaseCwnd = false
  remembers : s.tcb.congState = .caRecovery → ∃ e, s.trace.entry = some e ∧
    Remembers stats e s.trace.reinitialized s.tcb.initialSsThresh s.tcb.ssThresh s.congestionControl
  exits : ∀ x ∈ s.trace.exits, Restores stats algorithm x

/-! ## What hooks keep -/

theorem increaseWindow_ssThresh (tcb : TcpSocketState) (segmentsAcked : BitVec 32) :
    (increaseWindow tcb segmentsAcked).ssThresh = tcb.ssThresh := by
  have slow : (slowStart tcb segmentsAcked).1.ssThresh = tcb.ssThresh := by
    unfold slowStart
    split <;> rfl
  have avoid (w : Windows) (n : BitVec 32) :
      (congestionAvoidance tcb.segmentSize w n).ssThresh = w.ssThresh := by
    unfold congestionAvoidance
    split <;> rfl
  simp only [increaseWindow]
  split
  · split
    · exact (avoid _ _).trans slow
    · exact slow
  · split
    · exact avoid _ _
    · rfl

/-- The members of CERL that belong to a recovery, and the threshold. -/
structure SameMemory (v w : Windows × TcpCerl τ) : Prop where
  ssThresh : w.1.ssThresh = v.1.ssThresh
  oldCwnd : w.2.oldCwnd = v.2.oldCwnd
  entered : w.2.enteredRecovery = v.2.enteredRecovery
  decrease : w.2.decreaseCwnd = v.2.decreaseCwnd

variable {stats} {algorithm}

theorem quiet_sameMemory {call : CongestionCall} (quiet : Quiet call) (now : Int)
    (tcb : TcpSocketState) (c : TcpCerl τ) :
    SameMemory (tcb.toWindows, c) ((ops stats).call now call tcb c) := by
  cases call with
  | increaseWindow n => exact ⟨increaseWindow_ssThresh tcb n, rfl, rfl, rfl⟩
  | pktsAcked n rtt => exact ⟨rfl, rfl, rfl, rfl⟩
  | congestionStateSet newState =>
    have other : newState ≠ .caRecovery := by
      intro recovery
      rw [recovery] at quiet
      exact quiet
    have same : congestionStateSet newState c = c := if_neg other
    refine ⟨rfl, ?_, ?_, ?_⟩
    · exact congrArg oldCwnd same
    · exact congrArg enteredRecovery same
    · exact congrArg decreaseCwnd same
  | cwndEvent event => exact ⟨rfl, rfl, rfl, rfl⟩
  | enterRecovery => exact quiet.elim
  | exitRecovery => exact quiet.elim
  | congControl d l p => exact ⟨rfl, rfl, rfl, rfl⟩

theorem SameMemory.trans {u v w : Windows × TcpCerl τ} (first : SameMemory u v)
    (second : SameMemory v w) : SameMemory u w where
  ssThresh := second.ssThresh.trans first.ssThresh
  oldCwnd := second.oldCwnd.trans first.oldCwnd
  entered := second.entered.trans first.entered
  decrease := second.decrease.trans first.decrease

theorem sameMemory_of_hooks {v w : Windows × TcpCerl τ}
    (hooks : Hooks (senderOps stats algorithm) v w) : SameMemory v w := by
  induction hooks with
  | refl v => exact ⟨rfl, rfl, rfl, rfl⟩
  | congestion now call quiet _ ih => exact (quiet_sameMemory quiet now _ _).trans ih
  | @recovery tcb c last call r _ ih =>
    have kept : SameMemory (tcb.toWindows, c) ((algorithm.ops.call call tcb r).1, c) :=
      ⟨RecoveryAlgorithm.call_ssThresh algorithm call tcb r, rfl, rfl, rfl⟩
    exact kept.trans ih
  | @write w c last cWnd cWndInfl _ ih =>
    have kept : SameMemory (w, c) ({ w with cWnd, cWndInfl }, c) := ⟨rfl, rfl, rfl, rfl⟩
    exact kept.trans ih

variable {profile : BuildProfile} {s t : Sender (TcpCerl τ) PrrState}

variable {e : RecoveryEntry (TcpCerl τ)}

theorem Remembers.same {reinitialized : Bool}
    {initialSsThresh : BitVec 32} {v w : Windows × TcpCerl τ}
    (h : Remembers stats e reinitialized initialSsThresh v.1.ssThresh v.2) (same : SameMemory v w) :
    Remembers stats e reinitialized initialSsThresh w.1.ssThresh w.2 where
  initial := h.initial
  held := same.oldCwnd.trans h.held
  threshold random := same.ssThresh.trans (h.threshold random)

theorem Inv.frame (h : Inv stats algorithm s) (frame : Frame (senderOps stats algorithm) s t) :
    Inv stats algorithm t := by
  have same := sameMemory_of_hooks frame.hooks
  refine ⟨same.entered.trans h.entered, same.decrease.trans h.decrease, ?_, ?_⟩
  · intro state
    obtain ⟨e, entry, remembers⟩ := h.remembers (frame.congState.symm.trans state)
    refine ⟨e, frame.entry.trans entry, ?_⟩
    rw [frame.reinitialized, frame.initialSsThresh]
    exact remembers.same same
  · rw [frame.exits]
    exact h.exits

theorem Inv.leave (h : Inv stats algorithm s) (state : t.tcb.congState ≠ .caRecovery)
    (members : t.congestionControl = s.congestionControl) (exits : t.trace.exits = s.trace.exits) :
    Inv stats algorithm t where
  entered := members ▸ h.entered
  decrease := members ▸ h.decrease
  remembers found := absurd found state
  exits := exits ▸ h.exits

/-! ## The start of a recovery -/

theorem setSsThresh_members {inFlight : BitVec 32}
    (entered : s.congestionControl.enteredRecovery = false)
    (run : s.setSsThresh profile (senderOps stats algorithm) inFlight = some t) :
    t.congestionControl = s.congestionControl := by
  simp only [setSsThresh, senderOps, ops, getSsThresh, entered, bind_returns, pure_returns,
    Bool.not_false, if_true] at run
  obtain ⟨⟨ssThresh, c⟩, ⟨-, -, same⟩, rfl⟩ := run
  cases same
  rfl

/-- `EnterCwr` sets the window to the threshold, and nothing is saved. -/
theorem Inv.enterCwr {delivered : BitVec 32} (h : Inv stats algorithm s)
    (run : s.enterCwr profile (senderOps stats algorithm) delivered = some t) :
    Inv stats algorithm t := by
  have kept := enterCwr_kept run
  simp only [Sender.enterCwr, bind_returns, pure_returns] at run
  obtain ⟨u, counted, v, threshold, -, -, rfl⟩ := run
  have frame : Frame (senderOps stats algorithm) s u := .bytesInFlight counted
  have inv := h.frame frame
  have members := setSsThresh_members inv.entered threshold
  have entered : v.congestionControl.enteredRecovery = false := members ▸ inv.entered
  refine inv.leave ?_ ?_ (kept.exits.trans frame.exits.symm)
  · rw [kept.congState]
    intro state
    cases state
  · simp only [invokeRecovery, senderOps, ops, Bool.false_eq_true, if_false, congestion, recovery,
      setCongState, enterRecovery, entered, Bool.not_false, if_true]
    exact members

/-- What `GetSsThresh` decides once `CongestionStateSet` has announced the recovery. -/
theorem setSsThresh_cases {inFlight : BitVec 32}
    (entered : s.congestionControl.enteredRecovery = true)
    (run : s.setSsThresh profile (senderOps stats algorithm) inFlight = some t) :
    t.congestionControl.enteredRecovery = true ∧
      (isCongestion stats s.tcb s.congestionControl = true ∧
          t.congestionControl.oldCwnd = s.congestionControl.oldCwnd ∨
        isCongestion stats s.tcb s.congestionControl = false ∧
          t.congestionControl.oldCwnd = s.tcb.cWnd.toInt ∧ t.tcb.ssThresh = s.tcb.ssThresh) := by
  simp only [setSsThresh, senderOps, ops, getSsThresh, entered, bind_returns, pure_returns,
    Bool.not_true, Bool.false_eq_true, if_false] at run
  obtain ⟨⟨ssThresh, c⟩, ⟨-, -, decided⟩, rfl⟩ := run
  split at decided
  case isTrue congested =>
    cases decided
    exact ⟨rfl, .inl ⟨congested, rfl⟩⟩
  case isFalse random =>
    cases decided
    exact ⟨rfl, .inr ⟨by simpa using random, rfl, rfl⟩⟩

/-- The `EnterRecovery` hooks take both flags down and keep what is saved. -/
theorem invokeRecovery_members (delivered : BitVec 32)
    (entered : s.congestionControl.enteredRecovery = true)
    (run : s.invokeRecovery (senderOps stats algorithm) delivered = t) :
    t.tcb.ssThresh = s.tcb.ssThresh ∧
      t.congestionControl.oldCwnd = s.congestionControl.oldCwnd ∧
      t.congestionControl.enteredRecovery = false ∧ t.congestionControl.decreaseCwnd = false := by
  have hook : (enterRecovery s.tcb s.congestionControl).1.ssThresh = s.tcb.ssThresh ∧
      (enterRecovery s.tcb s.congestionControl).2.oldCwnd = s.congestionControl.oldCwnd ∧
      (enterRecovery s.tcb s.congestionControl).2.enteredRecovery = false ∧
      (enterRecovery s.tcb s.congestionControl).2.decreaseCwnd = false := by
    simp only [enterRecovery, entered, Bool.not_true, Bool.false_eq_true, if_false]
    split
    case isTrue => exact ⟨rfl, rfl, rfl, rfl⟩
    case isFalse kept => exact ⟨rfl, rfl, rfl, by simpa using kept⟩
  obtain rfl := run
  obtain ⟨ssThresh, members⟩ := hook
  exact ⟨(RecoveryAlgorithm.call_ssThresh algorithm _ _ _).trans ssThresh, members⟩

/-- `EnterRecovery` leaves CERL remembering the recovery it starts. -/
theorem Inv.beginRecovery {delivered : BitVec 32} (h : Inv stats algorithm s)
    (run : s.beginRecovery profile (senderOps stats algorithm) delivered = some t) :
    Inv stats algorithm t := by
  have kept := beginRecovery_kept run
  simp only [Sender.beginRecovery, bytesInFlight, bind_returns, pure_returns] at run
  obtain ⟨-, -, u, marked, v, ⟨bytes, -, rfl⟩, w, threshold, invoked⟩ := run
  obtain ⟨b, rfl⟩ := markHead_eq marked
  obtain ⟨entered, decided⟩ := setSsThresh_cases rfl threshold
  obtain ⟨ssThresh, oldCwnd, cleared, decrease⟩ := invokeRecovery_members delivered entered invoked
  refine ⟨cleared, decrease, fun _ => ⟨_, kept.entry, ?_⟩, ?_⟩
  · rw [kept.reinitialized]
    obtain ⟨congested, saved⟩ | ⟨random, saved, same⟩ := decided
    · have congested : congestionEntry stats ⟨s.tcb, s.congestionControl⟩ = true := congested
      refine ⟨kept.initialSsThresh, ?_, ?_⟩
      · rw [heldWindow, congested, if_pos rfl]
        exact oldCwnd.trans saved
      · intro random
        exact absurd (congested.symm.trans random) (by simp)
    · have random : congestionEntry stats ⟨s.tcb, s.congestionControl⟩ = false := random
      refine ⟨kept.initialSsThresh, ?_, ?_⟩
      · rw [heldWindow, random, if_neg (by simp)]
        exact oldCwnd.trans saved
      · intro _
        exact ssThresh.trans same
  · rw [kept.exits]
    exact h.exits

theorem Inv.enterRecovery {delivered : BitVec 32} (h : Inv stats algorithm s)
    (run : s.enterRecovery profile (senderOps stats algorithm) delivered = some t) :
    Inv stats algorithm t := by
  simp only [Sender.enterRecovery, bind_returns] at run
  obtain ⟨u, began, sent⟩ := run
  exact (h.beginRecovery began).frame (.doRetransmit sent)

/-! ## The end of a recovery -/

theorem exitRecovery_restores {c : TcpCerl τ}
    (held : c.oldCwnd = heldWindow stats e) (tcb : TcpSocketState) :
    (exitRecovery tcb c).1 = { tcb.toWindows with cWnd := restoredWindow stats e tcb.ssThresh } ∧
      (exitRecovery tcb c).2.enteredRecovery = c.enteredRecovery ∧
      (exitRecovery tcb c).2.decreaseCwnd = c.decreaseCwnd := by
  unfold exitRecovery restoredWindow
  rw [held]
  split
  · exact ⟨rfl, rfl, rfl⟩
  · exact ⟨rfl, rfl, rfl⟩

/-- The two `ExitRecovery` hooks, on a socket whose recovery CERL remembers. -/
theorem Inv.exitRecovery (h : Inv stats algorithm s) (state : s.tcb.congState ≠ .caRecovery)
    (entry : s.trace.entry = some e)
    (remembers : Remembers stats e s.trace.reinitialized s.tcb.initialSsThresh s.tcb.ssThresh
      s.congestionControl) : Inv stats algorithm (s.exitRecovery (senderOps stats algorithm)) := by
  obtain ⟨windows, entered, decrease⟩ := exitRecovery_restores remembers.held s.tcb
  refine ⟨entered.trans h.entered, decrease.trans h.decrease, fun found => absurd found state, ?_⟩
  intro x mem
  rw [exitRecovery_exits _ entry, List.mem_cons] at mem
  obtain rfl | earlier := mem
  · have kept := RecoveryAlgorithm.call_ssThresh algorithm .exitRecovery
      (s.congestion (senderOps stats algorithm) .exitRecovery).tcb s.recoveryOps
    have set := RecoveryAlgorithm.exitRecovery_cWnd algorithm
      (s.congestion (senderOps stats algorithm) .exitRecovery).tcb s.recoveryOps
    have between : (s.congestion (senderOps stats algorithm) .exitRecovery).tcb.toWindows =
        { s.tcb.toWindows with cWnd := restoredWindow stats e s.tcb.ssThresh } := windows
    have threshold : (s.congestion (senderOps stats algorithm) .exitRecovery).tcb.ssThresh =
        s.tcb.ssThresh := by rw [between]
    refine ⟨?_, between, kept.trans threshold, ?_⟩
    · intro random
      rw [← remembers.initial]
      exact remembers.threshold random
    · rw [threshold] at set
      exact set
  · exact h.exits x earlier

/-! ## The events -/

section

variable (h : Inv stats algorithm s)
include h

theorem Inv.dupAck {delivered : BitVec 32}
    (run : s.dupAck profile (senderOps stats algorithm) delivered = some t) :
    Inv stats algorithm t := by
  obtain ⟨-, frame⟩ | ⟨-, rfl⟩ | ⟨-, u, frame, rest⟩ := dupAck_cases run
  · exact h.frame frame
  · exact ⟨h.entered, h.decrease, h.remembers, h.exits⟩
  · have disordered : Inv stats algorithm s.disordered := by
      refine h.leave (t := s.disordered) ?_ rfl rfl
      intro found
      cases found
    have counted := disordered.frame frame
    obtain entered | ⟨same, -⟩ := rest
    · exact counted.enterRecovery entered
    · exact counted.frame same

theorem Inv.acknowledges {ack : SequenceNumber32} {dup : Bool}
    (acks : Acknowledges (senderOps stats algorithm) ack dup s t) : Inv stats algorithm t := by
  have counted : Inv stats algorithm (s.ackCounted dup) :=
    ⟨h.entered, h.decrease, h.remembers, h.exits⟩
  have open_ {u : Sender (TcpCerl τ) PrrState} (inv : Inv stats algorithm u) :
      Inv stats algorithm (u.reopened ack) := by
    refine inv.leave (t := u.reopened ack) ?_ rfl rfl
    intro found
    cases found
  cases acks with
  | below state frame => exact counted.frame frame
  | inCwr state frame => exact counted.frame frame
  | afterLoss state above frame => exact (open_ counted).frame frame
  | ordered state new frame => exact (open_ counted).frame frame
  | stillDisordered state dup frame =>
    have inactive : Inv stats algorithm (s.deactivateRecover ack) :=
      ⟨h.entered, h.decrease, h.remembers, h.exits⟩
    exact inactive.frame frame
  | inOpen state frame =>
    have inactive : Inv stats algorithm ((s.ackCounted dup).deactivateRecover ack) :=
      ⟨h.entered, h.decrease, h.remembers, h.exits⟩
    exact inactive.frame frame
  | recovered state above u frame rest =>
    obtain ⟨e, entry, remembers⟩ := h.remembers state
    have cleared : Inv stats algorithm { s with dupAckCount := 0 } :=
      ⟨h.entered, h.decrease, h.remembers, h.exits⟩
    have left := (open_ cleared).frame frame
    have notRecovery : u.tcb.congState ≠ .caRecovery := by
      rw [frame.congState]
      intro found
      cases found
    refine (left.exitRecovery notRecovery (frame.entry.trans entry) ?_).frame rest
    rw [frame.reinitialized, frame.initialSsThresh]
    exact remembers.same (sameMemory_of_hooks frame.hooks)

theorem Inv.processAck {ack oldHeadSequence : SequenceNumber32} {sacked : Bool}
    {delivered : BitVec 32}
    (run : s.processAck profile (senderOps stats algorithm) ack sacked delivered oldHeadSequence =
      some t) : Inv stats algorithm t := by
  obtain ⟨u, v, noted, called, rest⟩ := processAck_cases run
  have counted : Inv stats algorithm v := by
    obtain ⟨-, rfl⟩ | ⟨-, duplicate⟩ := called
    · exact h.frame noted
    · exact (h.frame noted).dupAck duplicate
  obtain ⟨-, frame⟩ | ⟨-, -, acks⟩ := processAcked_cases rest
  · exact counted.frame frame
  · exact counted.acknowledges acks

theorem Inv.untilProcessAck {a : Ack} {call : ProcessAckCall (TcpCerl τ) PrrState}
    (run : s.untilProcessAck profile (senderOps stats algorithm) a = some (.inl call)) :
    Inv stats algorithm call.sender := by
  obtain ⟨-, -, -, u, left, rest⟩ := untilProcessAck_cases run
  have opened : Inv stats algorithm (s.afterCwr a.header.ackNumber) := by
    unfold afterCwr
    split
    · refine h.leave (t := s.setCongState .caOpen) ?_ rfl rfl
      intro found
      cases found
    · exact h
  obtain ⟨-, quiet⟩ | ⟨-, v, entered, counted⟩ := rest
  · exact (opened.frame left).frame quiet
  · exact ((opened.frame left).enterCwr entered).frame counted

theorem Inv.reTxTimeout {turns : Nat}
    (run : s.reTxTimeout profile (senderOps stats algorithm) turns = some t) :
    Inv stats algorithm t := by
  obtain frame | ⟨u, v, inFlight, lost, threshold, frame⟩ := reTxTimeout_cases run
  · exact h.frame frame
  · have forgotten : Inv stats algorithm s.lost := ⟨h.entered, h.decrease, h.remembers, h.exits⟩
    have inv := forgotten.frame lost
    have members : v.congestionControl = u.congestionControl := by
      obtain rfl | set := threshold
      · rfl
      · exact setSsThresh_members inv.entered set
    have exits : v.trace.exits = u.trace.exits := by
      obtain rfl | set := threshold
      · rfl
      · exact (setSsThresh_kept set).exits
    refine (inv.leave (t := v.setCongState .caLoss) ?_ members exits).frame frame
    intro found
    cases found

/-- One event keeps the invariant. -/
theorem Inv.step {e : Sender.Event}
    (run : s.step profile (senderOps stats algorithm) e = some t) : Inv stats algorithm t := by
  have marked {u : Sender (TcpCerl τ) PrrState} (inv : Inv stats algorithm u)
      (mark : SequenceNumber32) : Inv stats algorithm (u.marked mark) :=
    ⟨inv.entered, inv.decrease, inv.remembers, inv.exits⟩
  cases e with
  | receivedAck a =>
    obtain ⟨mark, frame⟩ | ⟨call, u, mark, until_, processed, frame⟩ := receivedAck_cases run
    · exact (marked h mark).frame frame
    · exact (marked ((h.untilProcessAck until_).processAck processed) mark).frame frame
  | reTxTimeout turns => exact h.reTxTimeout run
  | send p => exact h.frame (.send run)
  | sendPendingData turns => exact h.frame (.sendPendingData run)
  | receivedSyn header =>
    cases run
    refine ⟨h.entered, h.decrease, fun state => ?_, h.exits⟩
    obtain ⟨e, entry, remembers⟩ := h.remembers state
    exact ⟨e, entry, remembers.initial, remembers.held, fun _ => rfl⟩
  | surround around =>
    cases run
    exact (marked h around.highRxAckMark).frame (surround_frame _ around s)

end

/-! ## Every recovery of a run -/

/-- A socket before its first segment. -/
structure Fresh (s : Sender (TcpCerl τ) PrrState) : Prop where
  congState : s.tcb.congState = .caOpen
  entered : s.congestionControl.enteredRecovery = false
  decrease : s.congestionControl.decreaseCwnd = false
  exits : s.trace.exits = []

theorem run_restores {events : List Sender.Event} (start : Fresh s)
    (run : Run.exec (step profile (senderOps stats algorithm)) s events = some t) :
    ∀ x ∈ t.trace.exits, Restores stats algorithm x := by
  have inv : Inv stats algorithm s := by
    refine ⟨start.entered, start.decrease, fun state => ?_, fun x mem => ?_⟩
    · simp [start.congState] at state
    · simp [start.exits] at mem
  have every : Run.Meets (step profile (senderOps stats algorithm)) (fun _ _ => True) s events :=
    .of_forall (fun _ _ => trivial) s events
  exact (Run.invariant inv every (fun s e t h _ run => h.step run) run).exits

/-- The window and the threshold of the start of a recovery, again at its end. -/
def KeepsWindow (x : RecoveryExit (TcpCerl τ)) : Prop :=
  x.after.cWnd = x.entry.tcb.cWnd ∧ x.after.ssThresh = x.entry.tcb.ssThresh
  deriving Decidable

/-- A saved window survives the hook of TCP PRR, if it fits in the signed member that saves
it. The classic hook overwrites it. -/
def Survives : RecoveryAlgorithm → BitVec 32 → Prop
  | .classic, _ => False
  | .prr _, cWnd => 0 ≤ cWnd.toInt

/-- No SYN has set the threshold up again, and the saved window survives or was the
threshold. -/
def WindowFits (algorithm : RecoveryAlgorithm) (x : RecoveryExit (TcpCerl τ)) : Prop :=
  (x.reinitialized = false ∨ x.entry.tcb.initialSsThresh = x.entry.tcb.ssThresh) ∧
    (Survives algorithm x.entry.tcb.cWnd ∨ x.entry.tcb.cWnd = x.entry.tcb.ssThresh)

instance (algorithm : RecoveryAlgorithm) (cWnd : BitVec 32) :
    Decidable (Survives algorithm cWnd) :=
  match algorithm with
  | .classic => instDecidableFalse
  | .prr _ => inferInstanceAs (Decidable (0 ≤ cWnd.toInt))

instance (x : RecoveryExit (TcpCerl τ)) : Decidable (WindowFits algorithm x) :=
  instDecidableAnd

theorem Restores.threshold_iff {x : RecoveryExit (TcpCerl τ)} (h : Restores stats algorithm x)
    (random : congestionEntry stats x.entry = false) :
    x.before.ssThresh = x.entry.tcb.ssThresh ↔
      x.reinitialized = false ∨ x.entry.tcb.initialSsThresh = x.entry.tcb.ssThresh := by
  rw [h.threshold random]
  cases x.reinitialized with
  | false => simp
  | true => simp

/-- The window after such a loss, where the threshold is the old one. -/
theorem Restores.window_iff {x : RecoveryExit (TcpCerl τ)} (h : Restores stats algorithm x)
    (random : congestionEntry stats x.entry = false)
    (threshold : x.before.ssThresh = x.entry.tcb.ssThresh) :
    x.after.cWnd = x.entry.tcb.cWnd ↔
      Survives algorithm x.entry.tcb.cWnd ∨ x.entry.tcb.cWnd = x.entry.tcb.ssThresh := by
  have held : heldWindow stats x.entry = x.entry.tcb.cWnd.toInt := by
    rw [heldWindow, random, if_neg (by simp)]
  have set := h.after_cWnd
  rw [h.between, threshold, restoredWindow, held] at set
  rw [set]
  cases algorithm with
  | classic =>
    rw [Survives, false_or]
    exact eq_comm
  | prr mode =>
    rw [Survives]
    simp only
    split
    case isTrue saved =>
      rw [BitVec.ofInt_toInt]
      exact iff_of_true rfl (.inl saved)
    case isFalse negative =>
      rw [or_iff_right negative]
      exact eq_comm

/-- A loss that is not congestion leaves the windows as they were if and only if the saved
window survives both `ExitRecovery` hooks. -/
theorem randomLoss_keepsWindow (stats : CerlStatistics τ) (algorithm : RecoveryAlgorithm)
    (profile : BuildProfile) (s t : Sender (TcpCerl τ) PrrState) (events : List Sender.Event)
    (start : Fresh s)
    (run : Run.exec (step profile (senderOps stats algorithm)) s events = some t) :
    ∀ x ∈ t.trace.exits, congestionEntry stats x.entry = false →
      (KeepsWindow x ↔ WindowFits algorithm x) := by
  intro x mem random
  have restores := run_restores start run x mem
  constructor
  · rintro ⟨window, threshold⟩
    have threshold := restores.after_ssThresh.symm.trans threshold
    exact ⟨(restores.threshold_iff random).mp threshold,
      (restores.window_iff random threshold).mp window⟩
  · rintro ⟨kept, fits⟩
    have threshold := (restores.threshold_iff random).mpr kept
    exact ⟨(restores.window_iff random threshold).mpr fits,
      restores.after_ssThresh.trans threshold⟩

/-- No window of an earlier recovery is still saved when the recovery starts, or it is the
threshold anyway. -/
def NothingSaved (x : RecoveryExit (TcpCerl τ)) : Prop :=
  x.entry.congestionControl.oldCwnd < 0 ∨
    BitVec.ofInt 32 x.entry.congestionControl.oldCwnd = x.before.ssThresh
  deriving Decidable

/-- After a congestion loss `TcpCerl::ExitRecovery` sets the window to the threshold if and
only if no window was saved before. -/
theorem congestionLoss_setsThreshold (stats : CerlStatistics τ) (algorithm : RecoveryAlgorithm)
    (profile : BuildProfile) (s t : Sender (TcpCerl τ) PrrState) (events : List Sender.Event)
    (start : Fresh s)
    (run : Run.exec (step profile (senderOps stats algorithm)) s events = some t) :
    ∀ x ∈ t.trace.exits, congestionEntry stats x.entry = true →
      (x.between.cWnd = x.between.ssThresh ↔ NothingSaved x) := by
  intro x mem congestion
  have restores := run_restores start run x mem
  have held : heldWindow stats x.entry = x.entry.congestionControl.oldCwnd := by
    rw [heldWindow, congestion, if_pos rfl]
  rw [restores.between, NothingSaved, restoredWindow, held]
  split
  case isTrue saved => rw [or_iff_right (by omega)]
  case isFalse negative => exact iff_of_true rfl (Or.inl (by omega))

/-! ## Losses of both kinds -/

/-- A window of nine segments of two bytes. -/
def lossy : Sender (TcpCerl Delays) PrrState where
  congestionControl := { statistics := {} }
  recoveryOps := {}
  txBuffer := TcpTxBuffer.start (.ofNat 1) 1000 3 2 true
  tcb := {
    cWnd := 18, cWndInfl := 18, ssThresh := 18, segmentSize := 2
    highTxMark := .ofNat 1, nextTxSequence := .ofNat 1 }
  around := { highRxAckMark := .ofNat 1 }

/-- An ACK after a round-trip time. -/
def acked (rtt : Int) (ackNumber : Nat) (options : List TcpOption) : List Sender.Event :=
  arrives { lastRtt := rtt } (pureAck ackNumber TcpHeader.ACK options)

/-- Three duplicate ACKs: the segment that starts at the ACK number is missing. -/
def lacks (rtt : Int) (ackNumber : Nat) : List Sender.Event :=
  acked rtt ackNumber [.sack [(.ofNat (ackNumber + 2), .ofNat (ackNumber + 4))]] ++
    acked rtt ackNumber [.sack [(.ofNat (ackNumber + 2), .ofNat (ackNumber + 6))]] ++
    acked rtt ackNumber [.sack [(.ofNat (ackNumber + 2), .ofNat (ackNumber + 8))]]

/-- A segment is lost while the queues are short: the loss is not congestion. -/
def randomLoss : List Sender.Event :=
  [.send (List.replicate 60 0), .sendPendingData 20] ++ acked 100 3 [] ++ acked 50 5 [] ++
    acked 1000 7 [] ++ acked 60 9 [] ++ lacks 60 9

theorem fresh_lossy : Fresh lossy := ⟨rfl, rfl, rfl, rfl⟩

/-- A run that can be evaluated, and one of the recoveries it has finished. -/
theorem exists_exit {algorithm : RecoveryAlgorithm} {events : List Sender.Event}
    {P : RecoveryExit (TcpCerl Delays) → Prop} [DecidablePred P]
    (evaluates : ((Run.exec (step .debug (senderOps delays algorithm)) lossy events).any fun t =>
      t.trace.exits.any fun x => P x) = true) :
    ∃ t, Run.exec (step .debug (senderOps delays algorithm)) lossy events = some t ∧
      ∃ x ∈ t.trace.exits, P x := by
  obtain ⟨t, run, found⟩ := (Option.any_eq_true _ _).mp evaluates
  obtain ⟨x, mem, holds⟩ := List.any_eq_true.mp found
  exact ⟨t, run, x, mem, of_decide_eq_true holds⟩

/-- TCP PRR keeps the window of 22 bytes. -/
theorem randomLoss_keepsWindow_prr :
    ∃ t, Run.exec (step .debug (senderOps delays (.prr .ssrb))) lossy
        (randomLoss ++ acked 60 35 []) = some t ∧
      ∃ x ∈ t.trace.exits, x.entry.tcb.cWnd = 22 ∧ KeepsWindow x := by
  have found := @exists_exit (.prr .ssrb) (randomLoss ++ acked 60 35 []) (fun x =>
    x.entry.tcb.cWnd = 22 ∧ congestionEntry delays x.entry = false ∧ WindowFits (.prr .ssrb) x)
    inferInstance (by decide +kernel)
  obtain ⟨t, run, x, mem, window, random, fits⟩ := found
  have keeps :=
    randomLoss_keepsWindow delays (.prr .ssrb) .debug lossy t _ fresh_lossy run x mem random
  exact ⟨t, run, x, mem, window, keeps.mpr fits⟩

/-- The classic hook sets the window to the threshold. -/
theorem randomLoss_overwrites :
    Fresh lossy ∧ ∃ t, Run.exec (step .debug (senderOps delays .classic)) lossy
        (randomLoss ++ acked 60 35 []) = some t ∧
      ∃ x ∈ t.trace.exits, congestionEntry delays x.entry = false ∧ ¬ KeepsWindow x := by
  refine ⟨fresh_lossy, exists_exit ?_⟩
  decide +kernel

/-- A timeout ends the recovery, and the next loss is congestion. -/
def congestionAfterTimeout : List Sender.Event :=
  randomLoss ++ [.reTxTimeout 20] ++ acked 60 35 [] ++ acked 1000 37 [] ++ lacks 1000 37 ++
    acked 1000 59 []

example : congestionAfterTimeout.length = 29 := by decide +kernel

/-- After a congestion loss in a run without timeouts the window is the threshold. -/
theorem congestionLoss_setsThreshold_prr :
    ∃ t, Run.exec (step .debug (senderOps delays (.prr .ssrb))) lossy
        (randomLoss ++ acked 60 35 [] ++ acked 1000 37 [] ++ lacks 1000 37 ++ acked 1000 61 []) =
          some t ∧
      ∃ x ∈ t.trace.exits, x.between.ssThresh = 8 ∧ x.between.cWnd = x.between.ssThresh := by
  have found := @exists_exit (.prr .ssrb)
    (randomLoss ++ acked 60 35 [] ++ acked 1000 37 [] ++ lacks 1000 37 ++ acked 1000 61 [])
    (fun x => x.between.ssThresh = 8 ∧ congestionEntry delays x.entry = true ∧ NothingSaved x)
    inferInstance (by decide +kernel)
  obtain ⟨t, run, x, mem, threshold, congestion, nothing⟩ := found
  have sets :=
    congestionLoss_setsThreshold delays
      (.prr .ssrb) .debug lossy t _ fresh_lossy run x mem congestion
  exact ⟨t, run, x, mem, threshold, sets.mpr nothing⟩

/-- The timeout leaves a window of 22 bytes saved, and a later recovery restores it. -/
theorem congestionLoss_restoresStale :
    Fresh lossy ∧ ∃ t, Run.exec (step .debug (senderOps delays (.prr .ssrb))) lossy
        congestionAfterTimeout = some t ∧
      ∃ x ∈ t.trace.exits, congestionEntry delays x.entry = true ∧
        x.between.cWnd = 22 ∧ x.between.ssThresh = 4 := by
  refine ⟨fresh_lossy, exists_exit ?_⟩
  decide +kernel

end Ns3.TcpCerl
